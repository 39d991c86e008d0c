import Graft.Proofs.Batch.Setup
import Graft.Proofs.Batch.Patching
import Graft.Proofs.Splice.Declaration

/-!
# Brackets in the array's body

The body is read up to the first `];`.  That need not be the bracket that closes the array: an entry
may hold a statement that ends in an array of its own.

* `nesting?_append`: how deep in brackets a text ends follows from its parts;
* `exists_nesting_of_close`: a `];` in a balanced body closes an array inside of it;
* `Extends.exists_block`: entries go as deep as the body ends that they are added to;
* `findAnchor_body_iff`: the first body, if it is balanced, is the anchor and gets the entries
  exactly when it has no `];`.
-/

namespace Graft.Splice.Entries

open Text

/-- How deep in square brackets the place behind a character is, if the one in front of it is this
deep.  Without a bracket to close there is no such place. -/
def depthBehind? (depth : Nat) (c : Char) : Option Nat :=
  if c = '[' then some (depth + 1)
  else if c = ']' then (if depth = 0 then none else some (depth - 1))
  else some depth

/-- How deep in square brackets a text ends that begins at this depth. -/
def nesting? (depth : Nat) (t : Text) : Option Nat := t.foldlM depthBehind? depth

/-- Every square bracket has its counterpart, where those in strings and comments count as well. -/
def Balanced (t : Text) : Prop := nesting? 0 t = some 0

instance (t : Text) : Decidable (Balanced t) := inferInstanceAs (Decidable (_ = _))

theorem nesting?_append (depth : Nat) (a b : Text) :
    nesting? depth (a ++ b) = (nesting? depth a).bind (nesting? · b) :=
  List.foldlM_append

theorem nesting?_of_notMem {t : Text} (ho : '[' ∉ t) (hc : ']' ∉ t) (depth : Nat) :
    nesting? depth t = some depth := by
  induction t with
  | nil => rfl
  | cons c t ih =>
    rw [List.mem_cons, not_or] at ho hc
    have hstep : depthBehind? depth c = some depth := by
      rw [depthBehind?, if_neg (Ne.symm ho.1), if_neg (Ne.symm hc.1)]
    rw [nesting?, List.foldlM_cons, hstep]
    exact ih ho.2 hc.2

theorem nesting?_of_isBlank {gap : Text} (h : isBlank gap) (depth : Nat) :
    nesting? depth gap = some depth :=
  nesting?_of_notMem (notMem_of_isBlank h rfl) (notMem_of_isBlank h rfl) depth

/-- What has no bracket changes no depth. -/
theorem nesting?_append_of_flat {b : Text} (hb : ∀ d, nesting? d b = some d) (depth : Nat)
    (a : Text) : nesting? depth (a ++ b) = nesting? depth a := by
  rw [nesting?_append]
  cases nesting? depth a with
  | none => rfl
  | some d => exact hb d

/-- A `];` in a balanced body closes an array inside of it. -/
theorem exists_nesting_of_close {front rest : Text} (h : Balanced (front ++ (close ++ rest))) :
    ∃ d, nesting? 0 front = some (d + 1) := by
  have hclose : nesting? 0 (close ++ rest) = none := rfl
  rw [Balanced, nesting?_append] at h
  obtain ⟨d, hd, hrest⟩ := Option.bind_eq_some_iff.1 h
  cases d with
  | zero => exact absurd (hclose.symm.trans hrest) (Option.some_ne_none 0).symm
  | succ d => exact ⟨d, hd⟩

/-- What is read of a balanced body is all of it, or ends inside of an array, by whether there is a
`];` in it. -/
theorem exists_cut?_close {body : Text} (h : Balanced body) (after : Text) :
    ∃ span rest d, cut? close (body ++ (close ++ after)) = some (span, rest) ∧ span <+: body ∧
      (span = body ↔ contains close body = false) ∧
      nesting? 0 span = some d ∧ (d = 0 ↔ contains close body = false) := by
  cases hc : contains close body with
  | false =>
    exact ⟨body, after, 0, cut?_close_iff.2 hc, List.prefix_rfl, iff_of_true rfl rfl, h,
      iff_of_true rfl rfl⟩
  | true =>
    obtain ⟨⟨span, rest⟩, hcut⟩ := Option.isSome_iff_exists.1 hc
    have hbody := cut?_eq_append hcut
    rw [List.append_assoc] at hbody
    obtain ⟨d, hd⟩ := exists_nesting_of_close (hbody ▸ h)
    have hne : span ≠ body := by
      intro heq
      rw [heq, List.self_eq_append_right] at hbody
      cases hbody
    exact ⟨span, rest ++ (close ++ after), d + 1, cut?_append_of_some hcut _,
      ⟨close ++ rest, hbody.symm⟩, iff_of_false hne Bool.false_ne_true.symm, hd,
      iff_of_false (Nat.succ_ne_zero d) Bool.false_ne_true.symm⟩

/-! ## Where entries land -/

/-- Entries go as deep as the body ends that they are added to. -/
theorem Extends.exists_block {indent body t : Text} {entries : List Text}
    (h : Extends indent body entries t) (he : entries ≠ []) :
    ∃ x y, t = x ++ block indent entries ++ y ∧ ∀ d, nesting? d x = nesting? d body := by
  cases h with
  | same h => exact absurd h he
  | @added code rest comma gap ending kept _ atMostOne blank _ =>
    refine ⟨code ++ comma ++ rest ++ gap, ending, rfl, fun d => ?_⟩
    have hcomma : ∀ d, nesting? d comma = some d := by
      rcases atMostOne with rfl | rfl <;> exact fun _ => rfl
    have hbody : nesting? d body = nesting? d (code ++ rest) := by
      rw [← kept]
      conv => lhs; rw [← trimEnd_append_trailing body]
      exact nesting?_append_of_flat (nesting?_of_isBlank (isBlank_trailing body)) d _
    rw [nesting?_append_of_flat (nesting?_of_isBlank blank), hbody, nesting?_append,
      nesting?_append_of_flat hcomma, ← nesting?_append]

/-! ## The first declaration -/

theorem body?_eq {name type t rest : Text} (h : declaration? name type t = some rest) :
    body? name type t = (cut? close rest).map fun p => (p.1, close ++ p.2) := by
  rw [body?, h]
  cases hcut : cut? close rest with
  | none => simp [hcut]
  | some p => simp [hcut]

theorem body?_eq_none {name type t : Text} (h : declaration? name type t = none) :
    body? name type t = none := by
  rw [body?, h]
  rfl

/-- The first declaration, if it is closed at all, has the anchor. -/
theorem findAnchor_of_first {s : AnchorSettings} {t front rest body after : Text}
    (hd : leftmost (fun _ => declaration? s.listName s.listType) none t = some (front, rest))
    (hc : cut? close rest = some (body, after)) :
    findAnchor s t = some ⟨.listDeclaration, upTo t rest, body, close ++ after, s.listIndent⟩ ∧
      rest <:+ t := by
  obtain ⟨t', rfl, hdecl, hfirst⟩ := leftmost_eq_some_iff.1 hd
  have hrest : rest = body ++ (close ++ after) := by
    rw [cut?_eq_append hc, List.append_assoc]
  have hbody : leftmost (fun _ => body? s.listName s.listType) none (front ++ t') =
      some (front, body, close ++ after) := by
    refine leftmost_eq_some_iff.2 ⟨t', rfl, ?_, fun p q hpq hq => ?_⟩
    · rw [body?_eq hdecl, hc, Option.map_some]
    · exact body?_eq_none (hfirst p q hpq hq)
  refine ⟨?_, (declaration?_suffix hdecl).trans (List.suffix_append front t')⟩
  rw [findAnchor, hbody, Option.map_some, hrest]

/-- The first declaration's body, if it is balanced and closed by `];`, is the anchor exactly when
there is no other `];` in it.  Then the entries land in the array itself, and otherwise in an array
inside of it. -/
theorem findAnchor_body_iff {s : AnchorSettings} {st : Strategy} {t front body after : Text}
    (hs : strategy s = .ok st)
    (hd : leftmost (fun _ => declaration? s.listName s.listType) none t =
      some (front, body ++ (close ++ after)))
    (hb : Balanced body) :
    ∃ a, st.findAnchor t = some a ∧ a.text = t ∧ t = a.before ++ (body ++ (close ++ after)) ∧
      a.span <+: body ∧ (a.span = body ↔ contains close body = false) ∧
      ∀ snippets, snippets ≠ [] → ∃ x y d,
        (st.apply t snippets).text = a.before ++ (x ++ block a.indent snippets ++ y) ++ a.after ∧
          nesting? 0 x = some d ∧ (d = 0 ↔ contains close body = false) := by
  obtain ⟨-, -, rfl⟩ := strategy_eq_ok hs
  obtain ⟨span, rest, d, hcut, hspan, hwhole, hdepth, hzero⟩ := exists_cut?_close hb after
  obtain ⟨ha, hsuffix⟩ := findAnchor_of_first hd hcut
  have ht := upTo_append hsuffix
  refine ⟨_, ha, ?_, ht.symm, hspan, hwhole, fun snippets hne => ?_⟩
  · rw [Anchor.text, List.append_assoc, ← List.append_assoc span, ← cut?_eq_append hcut, ht]
  · obtain ⟨x, y, hxy, hx⟩ := (extended_extends s.listIndent span snippets).exists_block hne
    refine ⟨x, y, d, ?_, (hx 0).trans hdepth, hzero⟩
    rw [Strategy.apply_text hne ha, splice_text, hxy]

/-- An entry that holds nested arrays, and a function that returns one. -/
theorem findAnchor_body_iff_nested :
    let body := ("\n  \x7b\n    rows: [[1], [[2, 3], []]],\n" ++
      "    f: (xs) => \x7b return [xs[0]] \x7d,\n  \x7d,\n").toList
    let t := "const modules: Module[] = [".toList ++ (body ++ (close ++ ['\n']))
    ∃ st a, strategy {} = .ok st ∧ st.findAnchor t = some a ∧ a.span = body := by
  intro body t
  have hd : leftmost (fun _ => declaration? ({} : AnchorSettings).listName
      ({} : AnchorSettings).listType) none t = some ([], body ++ (close ++ ['\n'])) := by
    decide +kernel
  obtain ⟨a, ha, -, -, -, hspan, -⟩ :=
    findAnchor_body_iff (rfl : strategy {} = .ok _) hd (by decide +kernel)
  exact ⟨_, a, rfl, ha, hspan.2 (by decide +kernel)⟩

/-- A statement in an entry ends in an array: it is read as the end of the body, and a new entry
goes into that array. -/
theorem findAnchor_statement :
    let body := "\n  \x7b f: () => \x7b const x = [1]; return x; \x7d \x7d,\n".toList
    let t := "const modules: Module[] = [".toList ++ (body ++ (close ++ ['\n']))
    ∃ st a, strategy {} = .ok st ∧ Balanced body ∧ st.findAnchor t = some a ∧ a.span ≠ body ∧
      (st.apply t ["\x7b b: 2 \x7d".toList]).text =
        ("const modules: Module[] = [\n  \x7b f: () => \x7b const x = [1,\n\n  \x7b b: 2 \x7d\n" ++
          "]; return x; \x7d \x7d,\n];\n").toList := by
  refine ⟨_, _, rfl, ?_, rfl, ?_, ?_⟩ <;> decide +kernel

end Graft.Splice.Entries
