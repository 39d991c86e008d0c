import Graft.Document.Reader
import Graft.Document.Unwrap
import Mathlib.Data.List.DropRight
import Mathlib.Data.List.Infix
import Graft.Proofs.Text.Block
import Graft.Proofs.Xml.Prolog

/-!
# Unwrapping a document

`unwrap` finds the ends of a document by words that stand for them.  Where those words do not mislead,
it takes off what stands around the root, and the document says the same.

* `unfence_append`: what bears the tags of the root is kept when fences and blanks are taken off;
* `fromStart_declared`, `fromStart_root`: the start;
* `toEnd_append`: the end;
* `parse_unwrap`: an evident document reads the same when it is unwrapped.
-/

namespace Graft.Document

open Text
open Xml (Node Parts IsRoot)

/-! ## Taking off what stands at either end -/

theorem dropWhile_append_of_head {p : Char → Bool} {e : Text}
    (he : ∃ c u, e = c :: u ∧ p c = false) (x : Text) :
    (x ++ e).dropWhile p = x.dropWhile p ++ e := by
  obtain ⟨c, u, rfl, hc⟩ := he
  rw [List.dropWhile_append]
  split
  · rename_i hempty
    rw [List.isEmpty_iff.1 hempty, List.nil_append, List.dropWhile_cons_of_neg (by simp [hc])]
  · rfl

/-- The text begins as a tag begins and ends as a tag ends. -/
structure Tagged (e : Text) : Prop where
  first : ∃ u, e = '<' :: u
  last : ∃ v, e = v ++ ['>']

theorem trimBoth_append {p : Char → Bool} {e : Text} (he : Tagged e) (hfirst : p '<' = false)
    (hlast : p '>' = false) (x y : Text) :
    trimBoth p (x ++ (e ++ y)) = x.dropWhile p ++ (e ++ (y.reverse.dropWhile p).reverse) := by
  obtain ⟨u, hu⟩ := he.first
  obtain ⟨v, hv⟩ := he.last
  have hstart : (x ++ (e ++ y)).dropWhile p = x.dropWhile p ++ (e ++ y) :=
    dropWhile_append_of_head ⟨'<', u ++ y, by rw [hu]; rfl, hfirst⟩ x
  have hend : (y.reverse ++ (e.reverse ++ (x.dropWhile p).reverse)).dropWhile p =
      y.reverse.dropWhile p ++ (e.reverse ++ (x.dropWhile p).reverse) :=
    dropWhile_append_of_head ⟨'>', _, by rw [hv, List.reverse_concat]; rfl, hlast⟩ _
  rw [trimBoth, hstart, List.reverse_append, List.reverse_append, List.append_assoc, hend]
  simp only [List.reverse_append, List.reverse_reverse, List.append_assoc]

theorem trim_eq_trimBoth (t : Text) : trim t = trimBoth isSpace t := rfl

/-- Where nothing in front is taken off, an element alone is left as it is. -/
theorem trim_append_tagged {e x : Text} (he : Tagged e) (hx : x.dropWhile isSpace = x) :
    trim (x ++ e) = x ++ e := by
  have h := trimBoth_append (p := isSpace) he (by decide) (by decide) x []
  simpa only [List.append_nil, hx, List.reverse_nil, List.dropWhile_nil, ← trim_eq_trimBoth]
    using h

/-! ## Fences -/

theorem notMem_of_lastCut? {c : Char} {t front rest : Text}
    (h : lastCut? [c] t = some (front, rest)) : c ∉ rest := by
  have hfree := contains_of_lastCut? (List.cons_ne_nil c []) h
  intro hm
  rw [contains_iff_isInfix.2 ((List.singleton_infix_iff _ _).2 hm)] at hfree
  cases hfree

theorem lastLine_of_lastCut? {t body line : Text} (h : lastCut? ['\n'] t = some (body, line)) :
    lastLine t = line := by
  rw [lastCut?_eq_append h, lastLine_append (lastLine_concat_newline body),
    lastLine_of_oneLine (notMem_of_lastCut? h)]

theorem trimEnd_trim (t : Text) : trimEnd (trim t) = trim t := by
  rw [trim, trimEnd, trimEnd, List.reverse_reverse, List.dropWhile_idempotent]

theorem dropClosingFence_eq_self {t : Text}
    (h : startsWith fence (trim (lastLine (trim t))) = false) :
    dropClosingFence (trim t) = trim t := by
  rw [dropClosingFence, trimEnd_trim]
  split
  · rename_i hcut
    rw [lastLine_of_lastCut? hcut] at h
    rw [h]
    rfl
  · rfl

/-- A text that begins with a tag or with a byte order mark opens no fence. -/
theorem dropFenceLine_eq_self {t : Text} (h : ∃ c u, t = c :: u ∧ c ≠ '\x60') :
    dropFenceLine t = t := by
  obtain ⟨c, u, rfl, hc⟩ := h
  refine if_neg fun hfence => hc ?_
  obtain ⟨rest, hrest⟩ := Option.isSome_iff_exists.1 hfence
  have heq : c :: u = '\x60' :: ('\x60' :: '\x60' :: rest) := skip?_eq_some_iff.1 hrest
  exact (List.cons.inj heq).1

/-- What bears the tags of the root is kept when fences and blanks are taken off. -/
theorem unfence_append {x e y : Text} (he : Tagged e)
    (hx : ∃ c u, x.dropWhile isSpace ++ e = c :: u ∧ c ≠ '\x60')
    (hfence : startsWith fence (trim (lastLine (trim (x ++ (e ++ y))))) = false) :
    ∃ x' y', unfence (x ++ (e ++ y)) = x' ++ (e ++ y') ∧ x' <:+ x ∧ y' <+: y ∧
      (x.dropWhile isSpace = x → x.dropWhile (· == '\x60') = x → x' = x) := by
  obtain ⟨c, u, hhead, hc⟩ := hx
  have hbehind : ∀ (p : Char → Bool) (y : Text), (y.reverse.dropWhile p).reverse <+: y :=
    fun p y => List.reverse_suffix.1 ((List.reverse_reverse _).symm ▸ List.dropWhile_suffix p)
  have htrim : ∀ {p : Char → Bool}, p '<' = false → p '>' = false → ∀ x y,
      trimBoth p (x ++ (e ++ y)) = x.dropWhile p ++ (e ++ (y.reverse.dropWhile p).reverse) :=
    fun hfirst hlast => trimBoth_append he hfirst hlast
  have hkept : dropFenceLine (trim (x ++ (e ++ y))) = trim (x ++ (e ++ y)) := by
    refine dropFenceLine_eq_self ⟨c, u ++ (y.reverse.dropWhile isSpace).reverse, ?_, hc⟩
    rw [trim_eq_trimBoth, htrim (by decide) (by decide), ← List.append_assoc, hhead]
    rfl
  rw [unfence, hkept, dropClosingFence_eq_self hfence]
  simp only [trim_eq_trimBoth]
  rw [htrim (by decide) (by decide), htrim (by decide) (by decide), htrim (by decide) (by decide),
    htrim (by decide) (by decide)]
  refine ⟨_, _, rfl, ?_, ?_, ?_⟩
  · exact (List.dropWhile_suffix _).trans ((List.dropWhile_suffix _).trans
      ((List.dropWhile_suffix _).trans (List.dropWhile_suffix _)))
  · exact (hbehind _ _).trans ((hbehind _ _).trans ((hbehind _ _).trans (hbehind _ _)))
  · intro hspace htick
    simp only [hspace, htick]

/-! ## The start -/

theorem fromFirst?_eq_some {m : Text → Option Text} {x rest r : Text} (hr : m rest = some r)
    (hx : ∀ p q, x = p ++ q → q ≠ [] → m (q ++ rest) = none) :
    fromFirst? m (x ++ rest) = some r := by
  rw [fromFirst?, leftmost_eq_some_iff.2 ⟨rest, rfl, hr, hx⟩]
  rfl

theorem fromFirst?_eq_none_iff {m : Text → Option Text} {t : Text} :
    fromFirst? m t = none ↔ ∀ q, q <:+ t → m q = none := by
  rw [fromFirst?, Option.map_eq_none_iff]
  induction t with
  | nil =>
    rw [leftmost, Option.map_eq_none_iff]
    constructor
    · rintro h q hq
      rwa [List.suffix_nil.1 hq]
    · exact fun h => h [] List.suffix_rfl
  | cons c t ih =>
    rw [leftmost]
    split
    · rename_i a ha
      constructor
      · intro h
        cases h
      · intro h
        rw [h _ List.suffix_rfl] at ha
        cases ha
    · rename_i hnone
      rw [Option.map_eq_none_iff, leftmost_const, ih]
      constructor
      · intro h q hq
        rcases List.suffix_cons_iff.1 hq with rfl | hq
        · exact hnone
        · exact h q hq
      · exact fun h q hq => h q (hq.trans (List.suffix_cons c t))

/-- A suffix of two texts is one of the second, or has all of it. -/
theorem suffix_append_cases {q a b : Text} (h : q <:+ a ++ b) :
    q <:+ b ∨ ∃ p q', a = p ++ q' ∧ q' ≠ [] ∧ q = q' ++ b := by
  obtain ⟨p, hp⟩ := h
  rcases List.append_eq_append_iff.1 hp with ⟨q', ha, rfl⟩ | ⟨r, -, rfl⟩
  · by_cases hq : q' = []
    · subst hq
      exact .inl List.suffix_rfl
    · exact .inr ⟨p, q', ha, hq, rfl⟩
  · exact .inl ⟨r, rfl⟩

theorem anyTag?_eq_some_iff {t r : Text} :
    anyTag? t = some r ↔ r = t ∧ ∃ c u, t = '<' :: c :: u ∧ beginsTagName c = true := by
  unfold anyTag?
  split
  · rename_i c u
    constructor
    · intro h
      split at h
      · rename_i hc
        exact ⟨(Option.some.inj h).symm, c, u, rfl, hc⟩
      · cases h
    · rintro ⟨rfl, d, v, heq, hd⟩
      obtain ⟨rfl, rfl⟩ := List.cons.inj (List.cons.inj heq).2
      exact if_pos hd
  · rename_i hnot
    refine ⟨fun h => (nomatch h), ?_⟩
    rintro ⟨rfl, d, v, heq, -⟩
    exact absurd heq (hnot d v)

/-- What a character of no name follows holds no tag that it does not hold alone. -/
theorem anyTag?_append_eq_none {q : Text} (hq : q ≠ []) (h : anyTag? q = none) (u : Text) :
    anyTag? (q ++ '<' :: u) = none := by
  refine Option.eq_none_iff_forall_ne_some.2 fun r hr => ?_
  obtain ⟨-, c, v, heq, hc⟩ := anyTag?_eq_some_iff.1 hr
  cases q with
  | nil => exact hq rfl
  | cons d q =>
    obtain ⟨rfl, heq'⟩ := List.cons.inj heq
    cases q with
    | nil =>
      obtain ⟨rfl, -⟩ := List.cons.inj heq'
      exact absurd hc (by decide)
    | cons d q =>
      obtain ⟨rfl, -⟩ := List.cons.inj heq'
      rw [anyTag?_eq_some_iff.2 ⟨rfl, _, _, rfl, hc⟩] at h
      cases h

theorem moduleTag?_eq_some_iff {t r : Text} :
    moduleTag? t = some r ↔
      r = t ∧ ∃ c u, t = moduleOpen ++ c :: u ∧ endsTagName c = true := by
  unfold moduleTag?
  split
  · rename_i c u hskip
    obtain rfl := skip?_eq_some_iff.1 hskip
    constructor
    · intro h
      split at h
      · rename_i hc
        exact ⟨(Option.some.inj h).symm, c, u, rfl, hc⟩
      · cases h
    · rintro ⟨rfl, d, v, heq, hd⟩
      obtain ⟨rfl, rfl⟩ := List.cons.inj (List.append_cancel_left heq)
      exact if_pos hd
  · rename_i hnot
    refine ⟨fun h => (nomatch h), ?_⟩
    rintro ⟨rfl, d, v, heq, -⟩
    exact absurd (skip?_eq_some_iff.2 heq) (hnot d v)

/-- Where no tag begins, none of a module begins. -/
theorem moduleTag?_eq_none {t : Text} (h : anyTag? t = none) : moduleTag? t = none := by
  refine Option.eq_none_iff_forall_ne_some.2 fun r hr => ?_
  obtain ⟨-, c, u, rfl, -⟩ := moduleTag?_eq_some_iff.1 hr
  have hopen : moduleOpen ++ c :: u = '<' :: 'm' :: ("odule".toList ++ c :: u) := rfl
  rw [anyTag?_eq_some_iff.2 ⟨rfl, 'm', _, hopen, by decide⟩] at h
  cases h

theorem moduleTag?_eq_none_of_prefix {a b : Text} (h : a <+: b) (hb : moduleTag? b = none) :
    moduleTag? a = none := by
  obtain ⟨v, rfl⟩ := h
  refine Option.eq_none_iff_forall_ne_some.2 fun r hr => ?_
  obtain ⟨-, c, u, rfl, hc⟩ := moduleTag?_eq_some_iff.1 hr
  rw [moduleTag?_eq_some_iff.2 ⟨rfl, c, u ++ v, by simp, hc⟩] at hb
  cases hb

theorem declarationTag?_eq_none {t : Text} (h : startsWith declarationOpen t = false) :
    declarationTag? t = none := by
  rw [declarationTag?, h]
  rfl

/-- A text without a declaration has none at which it could start. -/
theorem fromFirst?_declarationTag?_eq_none {t : Text} (h : contains declarationOpen t = false) :
    fromFirst? declarationTag? t = none := by
  refine fromFirst?_eq_none_iff.2 fun q hq => declarationTag?_eq_none ?_
  refine Bool.eq_false_iff.2 fun hs => Bool.eq_false_iff.1 h ?_
  obtain ⟨v, rfl⟩ := startsWith_iff_isPrefix.1 hs
  exact contains_iff_isInfix.2 ((List.prefix_append _ v).isInfix.trans hq.isInfix)

section
variable {x e : Text} (hx : fromFirst? anyTag? x = none)
include hx

theorem anyTag?_suffix_append {p q : Text} (hpq : x = p ++ q) (hq : q ≠ [])
    (he : ∃ u, e = '<' :: u) (y : Text) : anyTag? (q ++ (e ++ y)) = none := by
  obtain ⟨u, rfl⟩ := he
  exact anyTag?_append_eq_none hq (fromFirst?_eq_none_iff.1 hx q ⟨p, hpq.symm⟩) (u ++ y)

/-- The first tag is the one behind a text without tags. -/
theorem fromFirst?_anyTag? (he : (anyTag? e).isSome) (y : Text) :
    fromFirst? anyTag? (x ++ (e ++ y)) = some (e ++ y) := by
  obtain ⟨r, hr⟩ := Option.isSome_iff_exists.1 he
  obtain ⟨-, c, u, rfl, hc⟩ := anyTag?_eq_some_iff.1 hr
  exact fromFirst?_eq_some (anyTag?_eq_some_iff.2 ⟨rfl, c, u ++ y, rfl, hc⟩) fun p q hpq hq =>
    anyTag?_suffix_append hx hpq hq ⟨c :: u, rfl⟩ y

/-- So is the first tag of a module, if that is one. -/
theorem fromFirst?_moduleTag? (he : (moduleTag? e).isSome) (y : Text) :
    fromFirst? moduleTag? (x ++ (e ++ y)) = some (e ++ y) := by
  obtain ⟨r, hr⟩ := Option.isSome_iff_exists.1 he
  obtain ⟨-, c, u, rfl, hc⟩ := moduleTag?_eq_some_iff.1 hr
  have hopen : moduleOpen ++ c :: u = '<' :: ("module".toList ++ c :: u) := rfl
  refine fromFirst?_eq_some (moduleTag?_eq_some_iff.2 ⟨rfl, c, u ++ y, by simp, hc⟩)
    fun p q hpq hq => moduleTag?_eq_none (anyTag?_suffix_append hx hpq hq ⟨_, hopen⟩ y)

/-- Without a declaration, the document starts with its root. -/
theorem fromStart_root (he : (anyTag? e).isSome) {y : Text}
    (hdecl : contains declarationOpen (x ++ (e ++ y)) = false)
    (hmodule : (moduleTag? e).isSome ∨ fromFirst? moduleTag? (e ++ y) = none) :
    fromStart (x ++ (e ++ y)) = e ++ y := by
  rw [fromStart, fromFirst?_declarationTag?_eq_none hdecl, Option.none_or]
  rcases hmodule with hmodule | hmodule
  · rw [fromFirst?_moduleTag? hx hmodule]
    rfl
  · have hmodule' : fromFirst? moduleTag? (x ++ (e ++ y)) = none := by
      obtain ⟨r, hr⟩ := Option.isSome_iff_exists.1 he
      obtain ⟨-, c, u, rfl, -⟩ := anyTag?_eq_some_iff.1 hr
      refine fromFirst?_eq_none_iff.2 fun q hq => ?_
      rcases suffix_append_cases hq with hq | ⟨p, q, hpq, hne, rfl⟩
      · exact fromFirst?_eq_none_iff.1 hmodule q hq
      · exact moduleTag?_eq_none (anyTag?_suffix_append hx hpq hne ⟨_, rfl⟩ y)
    rw [hmodule', Option.none_or, fromFirst?_anyTag? hx he]
    rfl

end

/-- Behind a byte order mark or none, the document starts with its declaration. -/
theorem fromStart_declared {mark front : Text} (hmark : mark = [] ∨ mark = ['\ufeff'])
    (hdecl : startsWith declarationOpen front) (z : Text) :
    fromStart (mark ++ (front ++ z)) = front ++ z := by
  have hfront : declarationTag? (front ++ z) = some (front ++ z) := by
    obtain ⟨v, rfl⟩ := startsWith_iff_isPrefix.1 hdecl
    rw [List.append_assoc]
    exact if_pos (startsWith_append _ _)
  have hfirst : fromFirst? declarationTag? (mark ++ (front ++ z)) = some (front ++ z) := by
    refine fromFirst?_eq_some hfront fun p q hpq hq => ?_
    rcases hmark with rfl | rfl
    · exact absurd (List.append_eq_nil_iff.1 hpq.symm).2 hq
    · rcases List.append_eq_singleton_iff.1 hpq.symm with ⟨-, rfl⟩ | ⟨-, rfl⟩
      · rfl
      · exact absurd rfl hq
  rw [fromStart, hfirst]
  rfl

/-! ## The end -/

/-- The name of the tag that a text begins with. -/
def tagName (e : Text) : Text := (e.drop 1).takeWhile fun c => !endsTagName c

theorem notMem_tagName (e : Text) : '>' ∉ tagName e := by
  intro hm
  have h := List.all_eq_true.1 (List.all_takeWhile (p := fun c => !endsTagName c)) _ hm
  exact absurd h (by decide)

theorem takeWhile_append_of_mem {p : Char → Bool} {u : Text} {c : Char} (hc : c ∈ u)
    (hp : p c = false) (y : Text) : (u ++ y).takeWhile p = u.takeWhile p := by
  rw [List.takeWhile_append]
  split
  · rename_i hlen
    have hall : u.takeWhile p = u :=
      (List.takeWhile_prefix p).eq_of_length hlen
    rw [← hall] at hc
    rw [List.all_eq_true.1 List.all_takeWhile c hc] at hp
    cases hp
  · rfl

theorem tagName_append {e : Text} (he : Tagged e) (y : Text) : tagName (e ++ y) = tagName e := by
  obtain ⟨u, rfl⟩ := he.first
  obtain ⟨v, hv⟩ := he.last
  have hm : '>' ∈ '<' :: u := hv ▸ List.mem_append_right v List.mem_cons_self
  exact takeWhile_append_of_mem (List.mem_of_ne_of_mem (by decide) hm) rfl y

theorem rootName?_eq {t body e : Text} (hbody : behindDeclaration? t = some body)
    (htag : fromFirst? anyTag? body = some e) : rootName? t = some (tagName e) := by
  rw [rootName?, hbody, Option.bind_eq_bind, Option.bind_some, htag]
  rfl

theorem rootName?_root {e : Text} (he : Tagged e) (htag : (anyTag? e).isSome) (y : Text) :
    rootName? (e ++ y) = some (tagName e) := by
  rw [← tagName_append he y]
  refine rootName?_eq (if_neg fun hs => ?_) (fromFirst?_anyTag? (x := []) rfl htag y)
  obtain ⟨r, hr⟩ := Option.isSome_iff_exists.1 htag
  obtain ⟨-, c, u, rfl, hc⟩ := anyTag?_eq_some_iff.1 hr
  obtain ⟨v, hv⟩ := startsWith_iff_isPrefix.1 hs
  obtain ⟨-, hv'⟩ := List.cons.inj hv
  obtain ⟨rfl, -⟩ := List.cons.inj hv'
  exact absurd hc (by decide)

/-- The name of the root is read behind the declaration, from the first tag there. -/
theorem rootName?_declared {front e : Text} (hdecl : startsWith declarationOpen front)
    (hmarked : Xml.Marked front) (hfree : fromFirst? anyTag? front = none) (he : Tagged e)
    (htag : (anyTag? e).isSome) (y : Text) :
    rootName? (front ++ (e ++ y)) = some (tagName e) := by
  obtain ⟨⟨a, b⟩, hcut⟩ := Option.isSome_iff_exists.1 hmarked
  have hb : fromFirst? anyTag? b = none := by
    refine fromFirst?_eq_none_iff.2 fun q hq => fromFirst?_eq_none_iff.1 hfree q (hq.trans ?_)
    exact ⟨a ++ "?>".toList, (cut?_eq_append hcut).symm⟩
  have hopen : startsWith declarationOpen (front ++ (e ++ y)) := by
    obtain ⟨v, rfl⟩ := startsWith_iff_isPrefix.1 hdecl
    rw [List.append_assoc]
    exact startsWith_append _ _
  rw [← tagName_append he y]
  have hbody : behindDeclaration? (front ++ (e ++ y)) = some (b ++ (e ++ y)) := by
    rw [behindDeclaration?, if_pos hopen, cut?_append_of_some hcut]
    rfl
  exact rootName?_eq hbody (fromFirst?_anyTag? hb htag y)

/-- A closing tag ends where a tag ends. -/
theorem not_straddles_closingTag {name e : Text} (hn : '>' ∉ name) (he : ∃ v, e = v ++ ['>'])
    (y : Text) : ¬ Straddles (closingTag name) e y := by
  rintro ⟨u, w, hu, hw, heq, hs, -⟩
  obtain ⟨v, rfl⟩ := he
  have hlast : '>' ∈ u := by
    rcases List.suffix_concat_iff.1 hs with rfl | ⟨u', rfl, -⟩
    · exact absurd rfl hu
    · simp
  have hpre : u <+: "</".toList ++ name ++ ['>'] := ⟨w, heq.symm⟩
  rcases List.prefix_concat_iff.1 hpre with rfl | hpre
  · exact hw (List.append_cancel_left (heq.symm.trans (List.append_nil _).symm))
  · rcases List.mem_append.1 (hpre.subset hlast) with hm | hm
    · exact absurd hm (by decide)
    · exact hn hm

/-- A document ends with a closing tag that does not come again behind it. -/
theorem toEnd_closed {t y name : Text} (ht : ∃ v, t = v ++ ['>'])
    (hname : rootName? (t ++ y) = some name) (hfree : '>' ∉ name)
    (hclosing : closingTag name <:+ t) (hbehind : contains (closingTag name) y = false) :
    toEnd (t ++ y) = t := by
  obtain ⟨v, hv⟩ := hclosing
  have hne : closingTag name ≠ [] := List.append_ne_nil_of_right_ne_nil _ (by decide)
  have hself : lastCut? (closingTag name) t = some (v, []) := by
    have h := lastCut?_append_of_some (lastCut?_self hne) v
    rwa [hv, List.append_nil] at h
  have hlast : lastCut? (closingTag name) (t ++ y) = some (v, y) := by
    rw [lastCut?_append_of_none (lastCut?_eq_none_iff.2 hbehind)
      (not_straddles_closingTag hfree ht y), hself]
    rfl
  rw [toEnd, hname]
  dsimp only
  rw [hlast]
  exact hv

/-- The document ends with its root, if the root closes as it opens and does not seem to close
again. -/
theorem toEnd_append {pre e y : Text} (he : Tagged e)
    (hname : rootName? (pre ++ (e ++ y)) = some (tagName e))
    (hclosing : closingTag (tagName e) <:+ e)
    (hbehind : contains (closingTag (tagName e)) y = false) :
    toEnd (pre ++ (e ++ y)) = pre ++ e := by
  obtain ⟨v, hv⟩ := he.last
  rw [← List.append_assoc] at hname ⊢
  exact toEnd_closed ⟨pre ++ v, by rw [hv, List.append_assoc]⟩ hname (notMem_tagName e)
    (hclosing.trans (List.suffix_append pre e)) hbehind

/-! ## Documents -/

/-- What `unwrap` looks for is found at the root, and nowhere else. -/
structure Evident (t front elem back : Text) : Prop where
  /-- The last line does not read as the end of a code fence. -/
  fence : startsWith fence (trim (lastLine (trim t))) = false
  tag : (anyTag? elem).isSome
  first : fromFirst? anyTag? front = none
  start : startsWith declarationOpen front ∨
    contains declarationOpen t = false ∧
      ((moduleTag? elem).isSome ∨ fromFirst? moduleTag? (elem ++ back) = none)
  closing : closingTag (tagName elem) <:+ elem
  last : contains (closingTag (tagName elem)) back = false

section
variable {t mark front elem back : Text} {node : Node}

theorem Evident.tagged (h : Evident t front elem back) : Tagged elem where
  first := by
    obtain ⟨r, hr⟩ := Option.isSome_iff_exists.1 h.tag
    obtain ⟨-, c, u, rfl, -⟩ := anyTag?_eq_some_iff.1 hr
    exact ⟨c :: u, rfl⟩
  last := by
    obtain ⟨v, hv⟩ := h.closing
    exact ⟨v ++ ("</".toList ++ tagName elem), by rw [List.append_assoc]; exact hv.symm⟩

/-- Blanks apart, a document begins with a byte order mark or with a tag. -/
theorem exists_head_of_parts (hp : Parts t mark front elem back node) (he : Tagged elem) :
    ∃ c u, (mark ++ front).dropWhile isSpace ++ elem = c :: u ∧ c ≠ '\x60' := by
  obtain ⟨u, hu⟩ := he.first
  rcases hp.mark with rfl | rfl
  · rcases hp.prolog.begins with hblank | ⟨gap, v, hgap, rfl⟩
    · refine ⟨'<', u, ?_, by decide⟩
      rw [List.nil_append, List.dropWhile_eq_nil_iff.2 (List.all_eq_true.1 hblank)]
      exact hu
    · refine ⟨'<', v ++ elem, ?_, by decide⟩
      rw [List.nil_append, List.dropWhile_append_of_pos (List.all_eq_true.1 hgap)]
      rfl
  · exact ⟨'\ufeff', front ++ elem, rfl, by decide⟩

/-- Nothing is taken off a declaration. -/
theorem dropWhile_eq_self_of_declared {p : Char → Bool} (hfirst : p '<' = false)
    (hbom : p '\ufeff' = false) (hmark : mark = [] ∨ mark = ['\ufeff'])
    (hdecl : startsWith declarationOpen front) :
    (mark ++ front).dropWhile p = mark ++ front := by
  obtain ⟨v, rfl⟩ := startsWith_iff_isPrefix.1 hdecl
  rcases hmark with rfl | rfl
  · exact List.dropWhile_cons_of_neg (Bool.eq_false_iff.1 hfirst)
  · exact List.dropWhile_cons_of_neg (Bool.eq_false_iff.1 hbom)

/-- A tag lies in front of the root only if one lies in the prolog. -/
theorem fromFirst?_anyTag?_suffix {x : Text} (hmark : mark = [] ∨ mark = ['\ufeff'])
    (hfront : fromFirst? anyTag? front = none) (hx : x <:+ mark ++ front) :
    fromFirst? anyTag? x = none := by
  refine fromFirst?_eq_none_iff.2 fun q hq => ?_
  rcases suffix_append_cases (hq.trans hx) with hq | ⟨p, q', hpq, hne, rfl⟩
  · exact fromFirst?_eq_none_iff.1 hfront q hq
  · rcases hmark with rfl | rfl
    · exact absurd (List.append_eq_nil_iff.1 hpq.symm).2 hne
    · rcases List.append_eq_singleton_iff.1 hpq.symm with ⟨-, rfl⟩ | ⟨-, rfl⟩
      · rfl
      · exact absurd rfl hne

theorem fromFirst?_moduleTag?_taken {y : Text} (hy : y <+: back)
    (h : fromFirst? moduleTag? (elem ++ back) = none) :
    fromFirst? moduleTag? (elem ++ y) = none := by
  obtain ⟨b, rfl⟩ := hy
  refine fromFirst?_eq_none_iff.2 fun q hq => ?_
  obtain ⟨p, hp⟩ := hq
  refine moduleTag?_eq_none_of_prefix (List.prefix_append q b)
    (fromFirst?_eq_none_iff.1 h (q ++ b) ⟨p, ?_⟩)
  rw [← List.append_assoc, hp, List.append_assoc]

/-- An evident document is reduced to its root, and to the prolog in front of that where it begins
with a declaration. -/
theorem unwrap_eq (hp : Parts t mark front elem back node) (h : Evident t front elem back) :
    ∃ pre, Xml.IsProlog pre ∧ unwrap t = pre ++ elem := by
  have he := h.tagged
  obtain rfl : t = (mark ++ front) ++ (elem ++ back) := hp.text.trans (List.append_assoc ..).symm
  obtain ⟨x, y, hcore, hx, hy, hkept⟩ :=
    unfence_append he (exists_head_of_parts hp he) h.fence
  have hlast : contains (closingTag (tagName elem)) y = false := by
    refine Bool.eq_false_iff.2 fun hin => Bool.eq_false_iff.1 h.last ?_
    exact contains_iff_isInfix.2 ((contains_iff_isInfix.1 hin).trans hy.isInfix)
  rw [unwrap, hcore]
  rcases h.start with hdecl | ⟨hdecl, hmodule⟩
  · refine ⟨front, hp.prolog, ?_⟩
    obtain rfl := hkept (dropWhile_eq_self_of_declared rfl rfl hp.mark hdecl)
      (dropWhile_eq_self_of_declared rfl rfl hp.mark hdecl)
    obtain ⟨v, hv⟩ := startsWith_iff_isPrefix.1 hdecl
    have hmarked : Xml.Marked front :=
      hv ▸ (hp.prolog.marked ("xml".toList ++ v) hv.symm).append ['<', '?']
    rw [List.append_assoc, fromStart_declared hp.mark hdecl,
      toEnd_append he (rootName?_declared hdecl hmarked h.first he h.tag y) h.closing hlast]
    exact trim_append_tagged he (dropWhile_eq_self_of_declared rfl rfl (.inl rfl) hdecl)
  · refine ⟨[], Xml.isProlog_nil, ?_⟩
    have hdecl' : contains declarationOpen (x ++ (elem ++ y)) = false := by
      refine Bool.eq_false_iff.2 fun hin => Bool.eq_false_iff.1 hdecl ?_
      obtain ⟨a, ha⟩ := hx
      obtain ⟨b, rfl⟩ := hy
      exact contains_iff_isInfix.2 ((contains_iff_isInfix.1 hin).trans ⟨a, b, by rw [← ha]; simp⟩)
    have hroot : toEnd ([] ++ (elem ++ y)) = [] ++ elem :=
      toEnd_append he (rootName?_root he h.tag y) h.closing hlast
    rw [fromStart_root (fromFirst?_anyTag?_suffix hp.mark h.first hx) h.tag hdecl'
      (hmodule.imp_right (fromFirst?_moduleTag?_taken hy)), ← List.nil_append (elem ++ y), hroot]
    exact trim_append_tagged (x := []) he rfl

theorem parse_eq_ok_iff {doc : Document} :
    parse t = .ok doc ↔
      isBlank t = false ∧ ∃ node, Xml.document t = .ok node ∧ ofNode node = .ok doc := by
  unfold parse Xml.parse
  cases hblank : isBlank t with
  | true => simp
  | false =>
    cases hread : Xml.document t with
    | error f => simp [Except.mapError]
    | ok node => simp [Except.mapError]

theorem parse_unwrap_of_parts {doc : Document} (hp : Parts t mark front elem back node)
    (h : Evident t front elem back) (hread : parse t = .ok doc) : parse (unwrap t) = .ok doc := by
  obtain ⟨-, node', hnode', hdoc⟩ := parse_eq_ok_iff.1 hread
  obtain rfl := Except.ok.inj (hp.reads.symm.trans hnode')
  obtain ⟨pre, hpre, heq⟩ := unwrap_eq hp h
  obtain ⟨u, hu⟩ := h.tagged.first
  have hblank : isBlank (unwrap t) = false := by
    have hm : '<' ∈ unwrap t := by simp [heq, hu]
    refine Bool.eq_false_iff.2 fun hall => ?_
    exact absurd (List.all_eq_true.1 hall _ hm) (by decide)
  have hdocument : Xml.document (pre ++ (elem ++ [])) = .ok node := hpre.takes hp.root rfl
  rw [List.append_nil, ← heq] at hdocument
  exact parse_eq_ok_iff.2 ⟨hblank, node, hdocument, hdoc⟩

/-- **An evident document reads the same when it is unwrapped.**  A text that reads as a document has
the parts of one, and if they are evident, what `unwrap` leaves reads as the same document. -/
theorem parse_unwrap {doc : Document} (hread : parse t = .ok doc) :
    (∃ mark front elem back node, Parts t mark front elem back node) ∧
      ∀ mark front elem back node, Parts t mark front elem back node →
        Evident t front elem back → parse (unwrap t) = .ok doc := by
  obtain ⟨-, node, hnode, -⟩ := parse_eq_ok_iff.1 hread
  obtain ⟨mark, front, elem, back, hparts⟩ := Xml.document_eq_ok hnode
  exact ⟨⟨mark, front, elem, back, node, hparts⟩,
    fun _ _ _ _ _ hp h => parse_unwrap_of_parts hp h hread⟩

end

/-- A comment behind the root is taken off. -/
theorem parse_unwrap_bare :
    ∃ elem back : Text, ∃ node,
      elem = "<module><module_name>A</module_name><slug>a</slug></module>".toList ∧
      back = "\n<!-- </b> -->\n".toList ∧
      Parts (elem ++ back) [] [] elem back node ∧ Evident (elem ++ back) [] elem back ∧
      parse (elem ++ back) = .ok ⟨"A".toList, "a".toList, none, [], {}⟩ ∧
      parse (unwrap (elem ++ back)) = .ok ⟨"A".toList, "a".toList, none, [], {}⟩ := by
  obtain ⟨elem, helem⟩ : ∃ elem, elem =
    "<module><module_name>A</module_name><slug>a</slug></module>".toList := ⟨_, rfl⟩
  obtain ⟨back, hback⟩ : ∃ back, back = "\n<!-- </b> -->\n".toList := ⟨_, rfl⟩
  have hread : parse (elem ++ back) = .ok ⟨"A".toList, "a".toList, none, [], {}⟩ := by
    rw [helem, hback]
    decide +kernel
  obtain ⟨node, hroot⟩ : ∃ node, IsRoot elem node := by
    refine Xml.exists_isRoot ?_
    rw [helem]
    decide +kernel
  have hdocument : Xml.document (elem ++ back) = .ok node := by
    have hmisc : Xml.misc back.length back = .ok [] := by
      rw [hback]
      decide +kernel
    exact Xml.isProlog_nil.takes hroot hmisc
  have hparts : Parts (elem ++ back) [] [] elem back node :=
    ⟨rfl, hdocument, .inl rfl, Xml.isProlog_nil, hroot⟩
  have hevident : Evident (elem ++ back) [] elem back := by
    rw [helem, hback]
    exact
      { fence := by decide
        tag := by decide
        first := by decide
        start := .inr ⟨by decide, .inl (by decide +kernel)⟩
        closing := by decide
        last := by decide }
  exact ⟨elem, back, node, helem, hback, hparts, hevident, hread,
    (parse_unwrap hread).2 _ _ _ _ _ hparts hevident⟩

/-- A declaration that the content quotes is taken for the start of the document, and what is left
does not read. -/
theorem unwrap_quoted_declaration :
    let t := ("<module><module_name>X</module_name><slug>x</slug>" ++
      "<plan><![CDATA[<?xml version=\"1.0\"?>]]></plan></module>").toList
    parse t = .ok ⟨"X".toList, "x".toList, some "<?xml version=\"1.0\"?>".toList, [], {}⟩ ∧
      unwrap t = "<?xml version=\"1.0\"?>]]></plan></module>".toList ∧
      (parse (unwrap t)).toOption = none := by
  decide +kernel

end Graft.Document
