import Graft.Document.Draft
import Graft.Proofs.Record.Shape
import Graft.Proofs.Xml.Layout

/-!
# Metadata of conventional snippets

The snippets that a draft is made with name the component by the words of the module's name, and
both paths by its slug.  Whatever plain name and slug they are made for, these are found again.

* `first?_of_cut?`: a matcher that begins with a word finds what stands behind its first occurrence;
* `component?_importOf`, `routePath?_routeOf`, `entryPath?_entryOf`, `icon?_entryOf`: what the
  conventional snippets carry;
* `contains_routeOf_iff`: the conventional route of a slug shows the path of no other.
-/

namespace Graft

open Text

/-- The characters of plain names: ASCII letters and digits, blanks and hyphens. -/
def isPlainChar (c : Char) : Bool := isLetter c || isDigit c || c == ' ' || c == '-'

/-- A name and a slug that conventional snippets are made for. -/
structure Conventional (moduleName slug : Text) : Prop where
  plain : ∀ c ∈ moduleName, isPlainChar c = true
  /-- The words of the name, run together, begin with a letter. -/
  named : ∃ c u, pascalCase moduleName = c :: u ∧ isLetter c = true
  slugged : slug ≠ []
  slug : ∀ c ∈ slug, isSlugChar c = true

/-! ## Plain characters -/

theorem isPlainChar_of_isSlugChar {c : Char} (h : isSlugChar c = true) : isPlainChar c = true := by
  simp only [isSlugChar, isPlainChar, isLetter, Bool.or_eq_true] at *
  rcases h with (h | h) | h
  · exact .inl (.inl (.inl (.inl h)))
  · exact .inl (.inl (.inr h))
  · exact .inr h

theorem toNat_lt_of_isPlainChar {c : Char} (h : isPlainChar c = true) : c.toNat < 128 := by
  simp only [isPlainChar, isLetter, isDigit, Bool.or_eq_true, Bool.and_eq_true, decide_eq_true_eq,
    beq_iff_eq, Char.le_def, UInt32.le_iff_toNat_le] at h
  change c.val.toNat < 128
  rcases h with ((((h | h) | h) | rfl) | rfl)
  · exact Nat.lt_of_le_of_lt h.2 (by decide)
  · exact Nat.lt_of_le_of_lt h.2 (by decide)
  · exact Nat.lt_of_le_of_lt h.2 (by decide)
  · decide
  · decide

/-- A property that the plain characters can be seen to have. -/
theorem forall_isPlainChar {p : Char → Prop}
    (h : ∀ n < 128, isPlainChar (Char.ofNat n) = true → p (Char.ofNat n)) {c : Char}
    (hc : isPlainChar c = true) : p c := by
  have hchar := h c.toNat (toNat_lt_of_isPlainChar hc)
  rw [Char.ofNat_toNat] at hchar
  exact hchar hc

/-- Marks of the snippets and documents that plain texts are put into. -/
def markupMarks : Text := ['<', '>', '&', '"', '\'', ':', '=', '/', ']', '\r', '\n']

theorem isXmlChar_of_isPlainChar {c : Char} (h : isPlainChar c = true) : Xml.isXmlChar c = true :=
  forall_isPlainChar (p := fun c => Xml.isXmlChar c = true) (by decide +kernel) h

theorem notMem_markupMarks {c : Char} (h : isPlainChar c = true) : c ∉ markupMarks :=
  forall_isPlainChar (p := fun c => c ∉ markupMarks) (by decide +kernel) h

theorem notMem_of_plain {t : Text} (ht : ∀ c ∈ t, isPlainChar c = true) {c : Char}
    (hc : c ∈ markupMarks) : c ∉ t :=
  fun hm => notMem_markupMarks (ht c hm) hc

/-! ## The component's name -/

theorem isPlainChar_of_letter_or_digit {c : Char} (h : (isLetter c || isDigit c) = true) :
    isPlainChar c = true := by
  rw [isPlainChar, h]
  rfl

theorem letter_or_digit_capital {c : Char} (h : (isLetter c || isDigit c) = true) :
    (isLetter (capital c) || isDigit (capital c)) = true :=
  forall_isPlainChar (p := fun c => (isLetter c || isDigit c) = true →
    (isLetter (capital c) || isDigit (capital c)) = true) (by decide +kernel)
    (isPlainChar_of_letter_or_digit h) h

theorem isIdentRest_of_letter_or_digit {c : Char} (h : (isLetter c || isDigit c) = true) :
    isIdentRest c = true :=
  forall_isPlainChar (p := fun c => (isLetter c || isDigit c) = true → isIdentRest c = true)
    (by decide +kernel) (isPlainChar_of_letter_or_digit h) h

theorem letter_or_digit_of_mem_pascalCaseFrom {fresh : Bool} {t : Text} {c : Char}
    (h : c ∈ pascalCaseFrom fresh t) : (isLetter c || isDigit c) = true := by
  induction t generalizing fresh with
  | nil => cases h
  | cons d t ih =>
    rw [pascalCaseFrom] at h
    split at h
    · rename_i hd
      rcases List.mem_cons.1 h with rfl | h
      · cases fresh with
        | true => exact letter_or_digit_capital hd
        | false => exact hd
      · exact ih h
    · exact ih h

theorem isPlainChar_of_mem_pascalCase {t : Text} : ∀ c ∈ pascalCase t, isPlainChar c = true :=
  fun _ h => isPlainChar_of_letter_or_digit (letter_or_digit_of_mem_pascalCaseFrom h)

/-- The component's name is one identifier. -/
theorem Conventional.isIdent_pascalCase {moduleName slug : Text}
    (h : Conventional moduleName slug) : IsIdent (pascalCase moduleName) := by
  obtain ⟨c, u, hname, hc⟩ := h.named
  refine ⟨c, u, hname, ?_, ?_⟩
  · rw [isIdentStart, hc]
    rfl
  · intro d hd
    apply isIdentRest_of_letter_or_digit
    have hmem : d ∈ pascalCaseFrom true moduleName := by
      rw [← pascalCase, hname]
      exact List.mem_cons_of_mem c hd
    exact letter_or_digit_of_mem_pascalCaseFrom hmem

end Graft

namespace Graft.Metadata

open Text

/-! ## Where matchers look -/

/-- The matcher succeeds only where the word stands behind no other. -/
def BeginsWith (w : Text) (m : Option Char → Text → Option Text) : Prop :=
  ∀ before t, (m before t).isSome → startsWith w t = true

/-- A matcher that begins with a word finds what stands behind the word's first occurrence. -/
theorem first?_of_cut? {w front rest value : Text} {m : Option Char → Text → Option Text}
    (hw : BeginsWith w m) (hcut : cut? w (front ++ (w ++ rest)) = some (front, rest))
    (hm : m front.getLast? (w ++ rest) = some value) :
    first? m (front ++ (w ++ rest)) = some value := by
  obtain ⟨tail, ht, -, hfirst⟩ := leftmost_eq_some_iff.1 hcut
  obtain rfl := List.append_cancel_left ht
  have hleft : leftmost m none (front ++ (w ++ rest)) = some (front, value) := by
    refine leftmost_eq_some_iff_at.2 ⟨w ++ rest, rfl, by rwa [Option.or_none], fun p q hpq hq => ?_⟩
    rw [← Option.not_isSome_iff_eq_none]
    intro hsome
    have hstarts := startsWith_iff_isPrefix.1 (hw _ _ hsome)
    exact skip?_eq_none_iff.1 (hfirst p q hpq hq) hstarts
  rw [first?, hleft]
  rfl

theorem beginsWith_of_bind {w : Text} {next : Text → Option Text} :
    BeginsWith w fun before t => if beforeWord before then (skip? w t).bind next else none := by
  intro before t h
  obtain ⟨value, hvalue⟩ := Option.isSome_iff_exists.1 h
  obtain ⟨-, hrest⟩ := Option.ite_none_right_eq_some.1 hvalue
  obtain ⟨rest, hskip, -⟩ := Option.bind_eq_some_iff.1 hrest
  rw [startsWith, hskip]
  rfl

theorem beginsWith_componentAt? : BeginsWith "import".toList componentAt? := beginsWith_of_bind

theorem beginsWith_routePathAt? : BeginsWith "path=\"".toList routePathAt? := beginsWith_of_bind

theorem beginsWith_entryPathAt? : BeginsWith "path:".toList entryPathAt? := beginsWith_of_bind

theorem beginsWith_iconAt? : BeginsWith "icon:".toList iconAt? := beginsWith_of_bind

/-- A word that is not in front of a blank, and has no blank, first occurs behind it. -/
theorem cut?_behind_blank {w front : Text} (hfront : contains w (front ++ [' ']) = false)
    (hw : ' ' ∉ w) (rest : Text) :
    cut? w (front ++ [' '] ++ (w ++ rest)) = some (front ++ [' '], rest) := by
  rw [cut?_append_of_none (contains_eq_false_iff.1 hfront) (not_straddles_of_notMem_left hw),
    cut?_append_self, Option.map_some, List.append_nil]

end Graft.Metadata

namespace Graft.Conventional

open Text Metadata Draft

variable {moduleName slug : Text} (h : Conventional moduleName slug)
include h

/-! ## What the conventional snippets carry -/

theorem component?_importOf : component? (importOf (pascalCase moduleName) slug) =
    some (pascalCase moduleName) := by
  have htext : importOf (pascalCase moduleName) slug = [] ++ ("import".toList ++
      ' ' :: (pascalCase moduleName ++
        ' ' :: ("from".toList ++ ' ' :: ("\"@modules/".toList ++ slug ++ "\";".toList)))) := by
    unfold importOf
    simp
  have hafter : afterWord (' ' :: ("\"@modules/".toList ++ slug ++ "\";".toList)) = true := by
    change beforeWord (some ' ') = true
    rfl
  rw [htext]
  apply first?_of_cut? beginsWith_componentAt?
  · exact cut?_append_self _ _
  · exact (matches_componentAt? _ _ _).2 ⟨(atBoundary_cons rfl _ _).2 rfl, h.isIdent_pascalCase,
      [' '], [' '], _, by simp, rfl, by simp, rfl, (atBoundary_some rfl _).2 hafter, rfl⟩

theorem notMem_slug {c : Char} (hc : c ∈ markupMarks) : c ∉ slug :=
  notMem_of_plain (fun d hd => isPlainChar_of_isSlugChar (h.slug d hd)) hc

theorem notMem_moduleName {c : Char} (hc : c ∈ markupMarks) : c ∉ moduleName :=
  notMem_of_plain h.plain hc

theorem routePath?_routeOf (component : Text) :
    routePath? (routeOf component slug) = some ('/' :: slug) := by
  have htext : routeOf component slug = "<Route".toList ++ [' '] ++ ("path=\"".toList ++
      (('/' :: slug) ++ '"' :: (" element=\x7b<".toList ++ component ++ " />\x7d />".toList))) := by
    unfold routeOf
    simp
  have hquote : '"' ∉ '/' :: slug := by
    simp [h.notMem_slug (c := '"') (by simp [markupMarks])]
  rw [htext]
  apply first?_of_cut? beginsWith_routePathAt?
  · exact cut?_behind_blank rfl (by simp) _
  · exact (matches_routePathAt? _ _ _).2
      ⟨(atBoundary_cons rfl _ _).2 rfl, List.cons_ne_nil _ _, hquote, _, rfl⟩

theorem entryPath?_entryOf (icon : Text) :
    entryPath? (entryOf moduleName slug icon) = some ('/' :: slug) := by
  have htext : entryOf moduleName slug icon = "\x7b\n ".toList ++ [' '] ++ ("path:".toList ++
      ([' '] ++ '"' :: (('/' :: slug) ++ '"' :: (",\n  title: \"".toList ++ moduleName ++
        "\",\n  icon: ".toList ++ icon ++ ",\n\x7d".toList)))) := by
    unfold entryOf
    simp
  have hmark : ∀ c ∈ '/' :: slug, ¬ IsMark c := by
    intro c hc hmark
    rcases List.mem_cons.1 hc with rfl | hc
    · exact absurd hmark (by simp [IsMark])
    · rcases hmark with rfl | rfl
      · exact h.notMem_slug (by simp [markupMarks]) hc
      · exact h.notMem_slug (by simp [markupMarks]) hc
  rw [htext]
  apply first?_of_cut? beginsWith_entryPathAt?
  · exact cut?_behind_blank rfl (by simp) _
  · exact (matches_entryPathAt? _ _ _).2 ⟨(atBoundary_cons rfl _ _).2 rfl, List.cons_ne_nil _ _,
      hmark, [' '], '"', '"', _, rfl, .inl rfl, .inl rfl, rfl⟩

/-- In front of an entry's icon nothing that is quoted has a colon. -/
theorem contains_iconKey : contains "icon:".toList ("\x7b\n  path: ".toList ++
    '"' :: (('/' :: slug) ++ '"' :: (",\n  title: ".toList ++
      '"' :: (moduleName ++ '"' :: (",\n ".toList ++ [' ']))))) = false := by
  have hcolon : ∀ t : Text, ':' ∉ t → contains "icon:".toList t = false := by
    intro t ht
    rw [← Bool.not_eq_true, contains_iff_isInfix]
    intro hin
    exact ht (hin.subset (by simp))
  have hquoted : ∀ a b : Text, contains "icon:".toList a = false →
      contains "icon:".toList b = false → contains "icon:".toList (a ++ '"' :: b) = false := by
    intro a b ha hb
    have hsplit : a ++ '"' :: b = a ++ ['"'] ++ b := by simp
    rw [← Bool.not_eq_true, hsplit,
      contains_separated_iff (by simp) (by simp), ha, hb]
    simp
  have hslug : ':' ∉ '/' :: slug := by simp [h.notMem_slug (c := ':') (by simp [markupMarks])]
  have hname : ':' ∉ moduleName := h.notMem_moduleName (by simp [markupMarks])
  apply hquoted _ _ rfl
  apply hquoted _ _ (hcolon _ hslug)
  apply hquoted _ _ rfl
  exact hquoted _ _ (hcolon _ hname) rfl

theorem icon?_entryOf {icon : Text} (hicon : ident? icon = some (icon, [])) :
    icon? (entryOf moduleName slug icon) = some icon := by
  have hnone := h.contains_iconKey
  generalize hfront : "\x7b\n  path: ".toList ++ '"' :: (('/' :: slug) ++
    '"' :: (",\n  title: ".toList ++ '"' :: (moduleName ++ '"' :: ",\n ".toList))) = front
  have htext : entryOf moduleName slug icon =
      front ++ [' '] ++ ("icon:".toList ++ ([' '] ++ (icon ++ ",\n\x7d".toList))) := by
    unfold entryOf
    rw [← hfront]
    simp
  obtain ⟨c, u, hc, hstart, hu, -, -⟩ := ident?_eq_some_iff.1 hicon
  rw [htext]
  apply first?_of_cut? beginsWith_iconAt?
  · apply cut?_behind_blank _ (by simp)
    rw [← hnone, ← hfront]
    simp
  · refine (matches_iconAt? _ _ _).2 ⟨(atBoundary_cons rfl _ _).2 ?_, ⟨c, u, hc, hstart, hu⟩, [' '],
      _, rfl, stops_cons.2 rfl, rfl⟩
    rw [List.getLast?_concat]
    rfl

end Graft.Conventional

namespace Graft.Draft

open Text Metadata

/-- The conventional route of a slug shows the path of no other. -/
theorem contains_routeOf_iff {component slug slug' : Text} (hc : '"' ∉ component)
    (hs : '"' ∉ slug) (hs' : '"' ∉ slug') :
    contains (routeAttribute ('/' :: slug')) (routeOf component slug) ↔ slug' = slug := by
  have htext : routeOf component slug = "<Route path=".toList ++ '"' :: (('/' :: slug) ++
      '"' :: (" element=\x7b<".toList ++ component ++ " />\x7d />".toList)) := by
    unfold routeOf
    simp
  have hattribute : ∀ p : Text, routeAttribute p = "path=".toList ++ '"' :: (p ++ ['"']) := by
    intro p
    rw [routeAttribute_eq]
    simp
  rw [contains_iff, hattribute, htext]
  constructor
  · rintro ⟨a, b, hab⟩
    -- a route has two quotes, and so has the path that it is to show
    have hparts := congrArg (splitAt '"') hab
    have hright : a ++ ("path=".toList ++ '"' :: (('/' :: slug') ++ ['"'])) ++ b =
        (a ++ "path=".toList) ++ '"' :: (('/' :: slug') ++ '"' :: b) := by simp
    have hback : '"' ∉ " element=\x7b<".toList ++ component ++ " />\x7d />".toList := by simp [hc]
    have hmiddle : ∀ t : Text, '"' ∉ t → splitAt '"' ('/' :: t) = ['/' :: t] := fun t ht =>
      splitAt_of_notMem (by simp [ht])
    rw [hright, splitAt_append, splitAt_append, splitAt_append, splitAt_append,
      splitAt_of_notMem (by simp), hmiddle slug hs, hmiddle slug' hs',
      splitAt_of_notMem hback] at hparts
    obtain ⟨x, xs, hx⟩ := List.exists_cons_of_ne_nil (splitAt_ne_nil '"' (a ++ "path=".toList))
    obtain ⟨y, ys, hy⟩ := List.exists_cons_of_ne_nil (splitAt_ne_nil '"' b)
    rw [hx, hy] at hparts
    cases xs with
    | nil =>
      have hpaths := (List.cons.inj (List.cons.inj hparts).2).1
      exact (List.cons.inj hpaths).2.symm
    | cons z zs =>
      have hlength := congrArg List.length hparts
      simp at hlength
      omega
  · rintro rfl
    exact ⟨"<Route ".toList, " element=\x7b<".toList ++ component ++ " />\x7d />".toList, by simp⟩

end Graft.Draft
