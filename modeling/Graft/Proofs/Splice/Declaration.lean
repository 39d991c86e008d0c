import Graft.Proofs.Splice.Listing

/-!
# Where the array's declaration is found

A declaration begins with a character that it has nowhere else, so that no two of them overlap.  The
first one that is closed is therefore the first that there is, whatever its body holds.

* `Entries.findAnchor_iff_declares`: the anchor's declaration is the only one up to its body;
* `Entries.findAnchor_replace`: a body that gives way to another is found again in its place;
* `Entries.grown_extends`: adding entries keeps the body, but for the blanks at its end and a comma.
-/

namespace Graft.Splice

open Text

/-- The settings are plain, and the declaration begins with a character that it has nowhere else. -/
structure Distinct (s : AnchorSettings) : Prop where
  plain : Plain s
  name : 'c' ∉ s.listName
  type : 'c' ∉ s.listType

theorem distinct_default : Distinct {} where
  plain := plain_default
  name := by decide
  type := by decide

namespace Entries

/-! ## The end of the body -/

theorem close_eq : close = [']', ';'] := rfl

/-- The body ends at the first `];`. -/
theorem cut?_close_iff {body rest : Text} :
    cut? close (body ++ (close ++ rest)) = some (body, rest) ↔ contains close body = false := by
  constructor
  · intro h
    refine Bool.eq_false_iff.2 fun hc => ?_
    obtain ⟨⟨front, back⟩, hcut⟩ := Option.isSome_iff_exists.1 hc
    have hsame := (cut?_append_of_some hcut (close ++ rest)).symm.trans h
    obtain ⟨rfl, _⟩ := Prod.mk.inj (Option.some.inj hsame)
    have hlen := congrArg List.length (cut?_eq_append hcut)
    simp only [close_eq, List.length_append, List.length_cons, List.length_nil] at hlen
    omega
  · intro h
    have hapart : ¬ Straddles close body (close ++ rest) := by
      rintro ⟨u, v, hu, hv, huv, _, hp⟩
      rw [close_eq] at huv hp
      obtain ⟨c, u, rfl⟩ := List.exists_cons_of_ne_nil hu
      obtain ⟨_, huv⟩ := List.cons.inj huv
      rcases List.append_eq_singleton_iff.1 huv.symm with ⟨rfl, rfl⟩ | ⟨rfl, rfl⟩
      · exact absurd (List.cons_prefix_cons.1 hp).1 (by decide)
      · exact hv rfl
    have hfirst : cut? close (close ++ rest) = some ([], rest) :=
      leftmost_eq_some_iff.2 ⟨close ++ rest, rfl, skip?_eq_some_iff.2 rfl, by simp⟩
    rw [cut?_append_of_none (contains_eq_false_iff.1 h) hapart, hfirst]
    simp

/-! ## The declaration -/

section
variable {name type head : Text}

/-- A declaration has its first character nowhere else. -/
theorem IsOpening.eq_cons (h : IsOpening name type head) (hn : 'c' ∉ name) (ht : 'c' ∉ type) :
    ∃ u, head = 'c' :: u ∧ 'c' ∉ u := by
  obtain ⟨g₁, g₂, g₃, g₄, g₅, _, h₁, h₂, h₃, h₄, h₅, rfl⟩ := h
  have hconst : "const".toList = 'c' :: "onst".toList := rfl
  have hwords : 'c' ∉ "onst".toList ∧ 'c' ∉ ":".toList ∧ 'c' ∉ "[]".toList ∧ 'c' ∉ "=".toList ∧
      'c' ∉ "[".toList := by decide
  obtain ⟨hw₁, hw₂, hw₃, hw₄, hw₅⟩ := hwords
  have hgap : ∀ {gap : Text}, isBlank gap → 'c' ∉ gap := fun hg => notMem_of_isBlank hg rfl
  rw [hconst, List.cons_append]
  refine ⟨_, rfl, ?_⟩
  simp only [List.mem_append, not_or]
  exact ⟨hw₁, ⟨hgap h₁, hn⟩, ⟨hgap h₂, hw₂⟩, ⟨hgap h₃, ht⟩, hw₃, ⟨hgap h₄, hw₄⟩, hgap h₅, hw₅⟩

/-- A declaration that begins in front of another ends in front of it. -/
theorem IsOpening.prefix_of_append {o q rest : Text} (ho : IsOpening name type o)
    (hh : IsOpening name type head) (hn : 'c' ∉ name) (ht : 'c' ∉ type) (hq : q ≠ [])
    (h : o <+: q ++ (head ++ rest)) : o <+: q := by
  obtain ⟨u, rfl, hu⟩ := ho.eq_cons hn ht
  obtain ⟨v, rfl, _⟩ := hh.eq_cons hn ht
  have hwhere := straddles_of_prefix hq h
  refine hwhere.resolve_right ?_
  rintro ⟨x, y, hx, hy, hxy, _, hp⟩
  obtain ⟨d, x, rfl⟩ := List.exists_cons_of_ne_nil hx
  obtain ⟨e, y, rfl⟩ := List.exists_cons_of_ne_nil hy
  obtain ⟨_, rfl⟩ := List.cons.inj hxy
  obtain ⟨rfl, _⟩ := List.cons_prefix_cons.1 hp
  exact hu (by simp)

end

/-- A text cut in front of its first declaration, around the body, and behind its close. -/
structure Declares (s : AnchorSettings) (front head body : Text) : Prop where
  opens : IsOpening s.listName s.listType head
  unclosed : contains close body = false
  first : ∀ o, IsOpening s.listName s.listType o → contains o front = false

section
variable {s : AnchorSettings} (hs : Distinct s) {front head body : Text} {t : Text} {a : Anchor}
include hs

/-- The anchor's declaration is the only one up to its body. -/
theorem findAnchor_iff_declares :
    findAnchor s t = some a ↔
      ∃ front head body rest, Declares s front head body ∧
        t = front ++ (head ++ (body ++ (close ++ rest))) ∧
        a = ⟨.listDeclaration, front ++ head, body, close ++ rest, s.listIndent⟩ := by
  have hiff := @isSome_body?_iff s.listName s.listType
  rw [findAnchor_eq_some_iff hs.plain.name hs.plain.type]
  constructor
  · rintro ⟨front, head, body, rest, hh, rfl, hcut, hfirst, rfl⟩
    refine ⟨front, head, body, rest, ⟨hh, cut?_close_iff.1 hcut, fun o ho => ?_⟩, rfl, rfl⟩
    refine Bool.eq_false_iff.2 fun hc => ?_
    obtain ⟨p, q, rfl⟩ := contains_iff.1 hc
    have hne : o ++ q ≠ [] := by
      obtain ⟨u, rfl⟩ := ho.eq_concat
      simp
    have hnone := hfirst p (o ++ q) (List.append_assoc p o q) hne
    have hsome := (hiff hs.plain.name hs.plain.type).2
      ⟨o, q ++ (head ++ (body ++ (close ++ rest))), ho, ?_, rfl⟩
    · rw [← List.append_assoc, hnone] at hsome
      cases hsome
    · refine contains_append_right _ (contains_append_right _ (contains_append_right _ ?_))
      exact contains_append_left (contains_iff_isInfix.2 List.infix_rfl) rest
  · rintro ⟨front, head, body, rest, ⟨hh, hc, hfirst⟩, rfl, rfl⟩
    refine ⟨front, head, body, rest, hh, rfl, cut?_close_iff.2 hc, fun p q hpq hq => ?_, rfl⟩
    refine Option.not_isSome_iff_eq_none.1 fun hsome => ?_
    obtain ⟨o, b, ho, _, heq⟩ := (hiff hs.plain.name hs.plain.type).1 hsome
    have hin := ho.prefix_of_append hh hs.name hs.type hq ⟨b, heq.symm⟩
    have hcontains : contains o front := by
      rw [hpq, contains_iff_isInfix]
      exact hin.isInfix.trans (List.suffix_append p q).isInfix
    rw [hfirst o ho] at hcontains
    cases hcontains

theorem Declares.findAnchor_eq (h : Declares s front head body) (rest : Text) :
    findAnchor s (front ++ (head ++ (body ++ (close ++ rest)))) =
      some ⟨.listDeclaration, front ++ head, body, close ++ rest, s.listIndent⟩ :=
  (findAnchor_iff_declares hs).2 ⟨front, head, body, rest, h, rfl, rfl⟩

/-- A body that gives way to one that does not close the array either is found in its place. -/
theorem findAnchor_replace (h : findAnchor s t = some a) {body' : Text}
    (hb : contains close body' = false) :
    findAnchor s (a.replace body') = some { a with span := body' } := by
  obtain ⟨front, head, body, rest, hd, rfl, rfl⟩ := (findAnchor_iff_declares hs).1 h
  have hnew : Declares s front head body' := ⟨hd.opens, hb, hd.first⟩
  simpa only [Anchor.replace, List.append_assoc] using hnew.findAnchor_eq hs rest

end

/-! ## What entries make of a body -/

/-- The body with some entries added, if there are any. -/
def grown (body indent : Text) (entries : List Text) : Text :=
  if entries = [] then body else extended body (block indent entries)

/-- The body is kept up to the blanks at its end, with at most one comma put in behind its code, and
the entries follow, each under the indentation. -/
inductive Extends (indent body : Text) (entries : List Text) : Text → Prop
  | same (h : entries = []) : Extends indent body entries body
  | added {code rest comma gap ending : Text} (kept : trimEnd body = code ++ rest)
      (dead : Dead rest) (atMostOne : comma = [] ∨ comma = [',']) (blank : isBlank gap)
      (ends : ending = ['\n'] ∨ ending = [',', '\n']) :
      Extends indent body entries
        (code ++ comma ++ rest ++ gap ++ block indent entries ++ ending)

theorem isBlank_newlines : isBlank "\n\n".toList := by decide

theorem extended_extends (indent body : Text) (entries : List Text) :
    Extends indent body entries (extended body (block indent entries)) := by
  have hplain : ∀ gap ending, isBlank gap → (ending = ['\n'] ∨ ending = [',', '\n']) →
      Extends indent body entries (trimEnd body ++ gap ++ block indent entries ++ ending) := by
    intro gap ending hg he
    have h := @Extends.added indent body entries (trimEnd body) [] [] gap ending
      (List.append_nil (trimEnd body)).symm (dead_of_isBlank rfl) (.inl rfl) hg he
    simpa only [List.append_nil] using h
  have hcommas : ",\n".toList = [',', '\n'] := rfl
  simp only [extended]
  split
  · rename_i hb
    have h := hplain ['\n'] ['\n'] rfl (.inl rfl)
    rwa [trimEnd_eq_nil_of_isBlank hb] at h
  · split
    · exact hplain ['\n'] ['\n'] rfl (.inl rfl)
    · rename_i code rest hc
      obtain ⟨hkept, hdead⟩ := codeCut?_spec hc
      split
      · exact hplain "\n\n".toList ",\n".toList isBlank_newlines (.inr hcommas)
      · exact .added hkept hdead (.inr rfl) isBlank_newlines (.inl rfl)

/-- Adding entries keeps the body, but for the blanks at its end and at most one comma. -/
theorem grown_extends (indent body : Text) (entries : List Text) :
    Extends indent body entries (grown body indent entries) := by
  unfold grown
  split
  · rename_i h
    exact .same h
  · exact extended_extends indent body entries

end Entries

end Graft.Splice
