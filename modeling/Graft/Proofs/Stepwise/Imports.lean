import Graft.Proofs.Splice.Icons
import Graft.Proofs.Splice.Imports
import Graft.Proofs.Text.Piece

/-!
# Imports in several steps

Imports that were inserted are module imports themselves, so that more of them go right behind.

* `moduleImport?_eq_some_iff`: the line of a module's import, by its parts;
* `moduleImport?_suffix`: an import that begins on a line in front of another one ends in front of
  that one;
* `afterLastImport?_block`: of some imports on lines of their own, the last one is the last;
* `findAnchor_inserted`: more imports go right behind those that were inserted.
-/

namespace Graft.Splice.Imports

open Text

/-! ## A module's import -/

/-- The line of a module's import up to the quote in front of its source. -/
def IsFront (front : Text) : Prop :=
  ∃ ind g₁ name g₂ g₃, (∀ c ∈ ind, isIndent c = true) ∧ g₁ ≠ [] ∧ isBlank g₁ ∧
    (∃ c u, name = c :: u ∧ isIdentStart c = true ∧ ∀ d ∈ u, isIdentRest d = true) ∧
    g₂ ≠ [] ∧ isBlank g₂ ∧ g₃ ≠ [] ∧ isBlank g₃ ∧
    front = ind ++ "import".toList ++ (g₁ ++ (name ++ (g₂ ++ "from".toList ++ g₃)))

theorem mem_words {c : Char} (h : c ∈ "import".toList ++ "from".toList) :
    isSpace c = false ∧ ¬ IsMark c := by
  have hall : ∀ c ∈ "import".toList ++ "from".toList, isSpace c = false ∧ ¬ (c = '"' ∨ c = '\'') :=
    forall_mem_of_all rfl
  exact hall c h

theorem moduleImport?_eq_some_iff {source t rest : Text} :
    moduleImport? source t = some rest ↔
      ∃ front q lit q' back, IsFront front ∧ IsMark q ∧ (∀ c ∈ lit, ¬ IsMark c) ∧ IsMark q' ∧
        IsLineBack back rest ∧ t = front ++ q :: (source ++ (lit ++ q' :: (back ++ rest))) := by
  have himport : ∀ t' : Text, Stops isIndent ("import".toList ++ t') := by
    intro t'
    have hw : "import".toList = 'i' :: "mport".toList := rfl
    rw [hw]
    exact stops_cons.2 (by decide)
  simp only [moduleImport?, Option.bind_eq_bind, Option.bind_eq_some_iff, Prod.exists,
    skip?_eq_some_iff, skipSpaces?_eq_some_iff, ident?_eq_some_iff,
    skipApart?_eq_some_iff Icons.firm_from, skipQuote?_fromQuote_eq_some_iff,
    skipLineEnd?_eq_some_iff]
  simp only [skipQuote?_eq_some_iff_mark]
  constructor
  · rintro ⟨t₁, h₁, t₂, ⟨g₁, hne₁, hg₁, -, rfl⟩, name, t₃, ⟨c, u, rfl, hc, hu, -, rfl⟩, t₄,
      ⟨g₂, hne₂, hg₂, rfl⟩, t₅, ⟨g₃, hne₃, hg₃, -, rfl⟩, t₆, ⟨q, hq, rfl⟩, t₇, rfl, t₈,
      ⟨lit, q', hlit, hq', rfl⟩, back, hback, rfl⟩
    refine ⟨_, q, lit, q', back, ⟨t.takeWhile isIndent, g₁, c :: u, g₂, g₃,
      List.all_eq_true.1 List.all_takeWhile, hne₁, hg₁, ⟨c, u, rfl, hc, hu⟩, hne₂, hg₂, hne₃, hg₃,
      rfl⟩, hq, hlit, hq', hback, ?_⟩
    conv => lhs; rw [← List.takeWhile_append_dropWhile (p := isIndent) (l := t), h₁]
    simp only [List.append_assoc]
  · rintro ⟨_, q, lit, q', back, ⟨ind, g₁, _, g₂, g₃, hind, hne₁, hg₁, ⟨c, u, rfl, hc, hu⟩, hne₂,
      hg₂, hne₃, hg₃, rfl⟩, hq, hlit, hq', hback, rfl⟩
    have hname : Stops isSpace (c :: u ++ (g₂ ++ "from".toList ++
        (g₃ ++ q :: (source ++ (lit ++ q' :: (back ++ rest)))))) :=
      stops_cons.2 (isSpace_eq_false_of_isIdentRest (isIdentRest_of_isIdentStart hc))
    have hgap : Stops isIdentRest (g₂ ++ "from".toList ++
        (g₃ ++ q :: (source ++ (lit ++ q' :: (back ++ rest))))) := by
      cases g₂ with
      | nil => exact absurd rfl hne₂
      | cons d g₂ =>
        refine stops_cons.2 (Bool.eq_false_iff.2 fun hd => ?_)
        have hspace := List.all_eq_true.1 hg₂ d List.mem_cons_self
        rw [isSpace_eq_false_of_isIdentRest hd] at hspace
        cases hspace
    refine ⟨_, ?_, _, ⟨g₁, hne₁, hg₁, hname, rfl⟩, c :: u, _, ⟨c, u, rfl, hc, hu, hgap, rfl⟩, _,
      ⟨g₂, hne₂, hg₂, rfl⟩, _, ⟨g₃, hne₃, hg₃, stops_cons.2 hq.isSpace, rfl⟩, _, ⟨q, hq, rfl⟩, _, rfl,
      _, ⟨lit, q', hlit, hq', rfl⟩, back, hback, rfl⟩
    simp only [List.append_assoc]
    exact (takeWhile_append_of_stops hind (himport _)).2

theorem isMark_eq_false_of_isIdentRest {c : Char} (h : isIdentRest c = true) : ¬ IsMark c := by
  rintro (rfl | rfl)
  · exact absurd h (by decide)
  · exact absurd h (by decide)

theorem IsFront.not_isMark {front : Text} (h : IsFront front) : ∀ c ∈ front, ¬ IsMark c := by
  obtain ⟨ind, g₁, _, g₂, g₃, hind, _, hg₁, ⟨d, u, rfl, hd, hu⟩, _, hg₂, _, hg₃, rfl⟩ := h
  have hgap : ∀ g : Text, isBlank g → ∀ c ∈ g, ¬ IsMark c := fun g hg c hc hm =>
    notMem_of_isBlank hg hm.isSpace hc
  have hindent : isBlank ind := List.all_eq_true.2 fun c hc => isSpace_of_isIndent (hind c hc)
  have hname : ∀ c ∈ d :: u, ¬ IsMark c := by
    refine List.forall_mem_cons.2 ⟨?_, fun c hc => isMark_eq_false_of_isIdentRest (hu c hc)⟩
    exact isMark_eq_false_of_isIdentRest (isIdentRest_of_isIdentStart hd)
  intro c hc
  simp only [List.mem_append] at hc
  rcases hc with (hc | hc) | hc | hc | (hc | hc) | hc
  · exact hgap ind hindent c hc
  · exact (mem_words (List.mem_append_left _ hc)).2
  · exact hgap g₁ hg₁ c hc
  · exact hname c hc
  · exact hgap g₂ hg₂ c hc
  · exact (mem_words (List.mem_append_right _ hc)).2
  · exact hgap g₃ hg₃ c hc

/-- There are three words in front of the source of a module's import. -/
theorem IsFront.wordCount {front : Text} (h : IsFront front) : wordCount true front = 3 := by
  obtain ⟨ind, g₁, _, g₂, g₃, hind, hne₁, hg₁, ⟨d, u, rfl, hd, hu⟩, hne₂, hg₂, hne₃, hg₃, rfl⟩ := h
  have hindent : isBlank ind := List.all_eq_true.2 fun c hc => isSpace_of_isIndent (hind c hc)
  have hname : ∀ c ∈ d :: u, isSpace c = false := by
    refine List.forall_mem_cons.2 ⟨?_, fun c hc => isSpace_eq_false_of_isIdentRest (hu c hc)⟩
    exact isSpace_eq_false_of_isIdentRest (isIdentRest_of_isIdentStart hd)
  have hfirst : ∀ c ∈ "import".toList, isSpace c = false := fun c hc =>
    (mem_words (List.mem_append_left _ hc)).1
  have hlast : ∀ c ∈ "from".toList, isSpace c = false := fun c hc =>
    (mem_words (List.mem_append_right _ hc)).1
  have hend : Text.wordCount true g₃ = 0 := by
    have h := wordCount_blank hg₃ []
    rwa [List.append_nil] at h
  rw [List.append_assoc, wordCount_blank hindent, wordCount_word (by decide) hfirst,
    wordCount_gap hne₁ hg₁, wordCount_word (List.cons_ne_nil d u) hname, List.append_assoc,
    wordCount_gap hne₂ hg₂, wordCount_word (by decide) hlast]
  have h := wordCount_gap hne₃ hg₃ false []
  rw [List.append_nil] at h
  rw [h]
  rfl

/-- The only newline of a line's end is its last character. -/
theorem eq_nil_of_isLineBack {back rest a b : Text} (h : IsLineBack back rest)
    (hb : back = a ++ '\n' :: b) : b = [] := by
  obtain ⟨semi, ind, eol, hsemi, hind, heol, rfl⟩ := h
  have hline : '\n' ∉ semi ++ ind := by
    intro hm
    rcases List.mem_append.1 hm with hm | hm
    · rcases hsemi with rfl | rfl
      · cases hm
      · exact absurd hm (by decide)
    · exact absurd (hind _ hm) (by decide)
  rcases List.eq_nil_or_concat b with rfl | ⟨b, c, rfl⟩
  · rfl
  · exfalso
    have hin : '\n' ∈ a ++ '\n' :: b := List.mem_append_right a List.mem_cons_self
    rw [List.concat_eq_append, ← List.cons_append, ← List.append_assoc a] at hb
    rcases heol with rfl | rfl | ⟨rfl, _⟩
    · exact hline ((List.append_inj' hb rfl).1 ▸ hin)
    · rw [show ['\r', '\n'] = ['\r'] ++ ['\n'] from rfl, ← List.append_assoc] at hb
      rw [← (List.append_inj' hb rfl).1] at hin
      rcases List.mem_append.1 hin with hm | hm
      · exact hline hm
      · exact absurd hm (by decide)
    · rw [List.append_nil] at hb
      exact hline (hb ▸ List.mem_append_left [c] hin)

/-- A source begins with a character that ends no statement, and has no quote. -/
structure Sourced (source : Text) : Prop where
  head : ∃ c u, source = c :: u ∧ c ∉ [';', ' ', '\t', '\r', '\n']
  unquoted : ∀ c ∈ source, ¬ IsMark c

theorem sourced_default : Sourced ({} : AnchorSettings).moduleImportPrefix where
  head := ⟨'@', "modules/".toList, by decide, by decide⟩
  unquoted := by
    have hall : ∀ c ∈ ({} : AnchorSettings).moduleImportPrefix, ¬ (c = '"' ∨ c = '\'') :=
      forall_mem_of_all rfl
    exact hall

/-- No line ends in front of a source. -/
theorem Sourced.ne_lineBack {source back rest : Text} (hs : Sourced source)
    (h : IsLineBack back rest) (t : Text) : back ++ rest ≠ source ++ t := by
  obtain ⟨⟨c, u, rfl, hc⟩, _⟩ := hs
  obtain ⟨semi, ind, eol, hsemi, hind, heol, rfl⟩ := h
  intro heq
  refine hc ?_
  rcases hsemi with rfl | rfl
  · cases ind with
    | nil =>
      rcases heol with rfl | rfl | ⟨rfl, rfl⟩
      · rw [← (List.cons.inj heq).1]
        decide
      · rw [← (List.cons.inj heq).1]
        decide
      · cases heq
    | cons d ind =>
      have hd := hind d List.mem_cons_self
      rw [(List.cons.inj heq).1, isIndent, Bool.or_eq_true, beq_iff_eq, beq_iff_eq] at hd
      rcases hd with rfl | rfl <;> decide
  · rw [← (List.cons.inj heq).1]
    decide

/-- What goes up to the source of an import is not that and a line in front of it. -/
theorem IsFront.ne_append {x front front' : Text} (h : IsFront front) (h' : IsFront front')
    (hx : ∃ u, x = u ++ ['\n']) : front ≠ x ++ front' := by
  obtain ⟨u, rfl⟩ := hx
  intro heq
  have hcount := h.wordCount
  rw [heq, List.append_assoc, List.singleton_append, wordCount_lines, h'.wordCount] at hcount
  have hblank : isBlank u := isBlank_of_wordCount (by omega)
  obtain ⟨ind, g₁, name, g₂, g₃, hind, _, _, _, _, _, _, _, rfl⟩ := h
  have hw : "import".toList = 'i' :: "mport".toList := rfl
  have hn : '\n' ∉ ind := fun hm => absurd (hind _ hm) (by decide)
  have hi : 'i' ∉ u ++ ['\n'] := by
    rw [List.mem_append, not_or]
    exact ⟨notMem_of_isBlank hblank rfl, by decide⟩
  rw [hw, List.append_assoc] at heq
  rcases List.append_eq_append_iff.1 heq with ⟨z, hz, hzz⟩ | ⟨z, hz, hzz⟩
  · cases z with
    | nil =>
      rw [List.append_nil] at hz
      exact hn (hz ▸ by simp)
    | cons c z =>
      rw [List.cons_append, List.cons_append] at hzz
      rw [hz, ← (List.cons.inj hzz).1] at hi
      exact hi (by simp)
  · exact hn (hz ▸ by simp)

/-- What follows a quote ends with the newline that ends the line. -/
theorem exists_concat_newline {u a w : Text} {c : Char} (hc : IsMark c)
    (h : u ++ ['\n'] = a ++ c :: w) : ∃ v, w = v ++ ['\n'] := by
  rcases List.eq_nil_or_concat w with rfl | ⟨v, d, rfl⟩
  · obtain ⟨-, hsame⟩ := List.append_inj' h rfl
    obtain rfl := (List.cons.inj hsame).1
    exact absurd hc (by unfold IsMark; decide)
  · have hlast : u ++ ['\n'] = a ++ c :: v ++ [d] := by simpa using h
    obtain ⟨-, hsame⟩ := List.append_inj' hlast rfl
    exact ⟨v, by rw [List.concat_eq_append, hsame]⟩

section
variable {source x y rest rest' : Text} (hs : Sourced source)
include hs

/-- An import that begins on a line in front of another one ends in front of that one. -/
theorem moduleImport?_suffix (hx : ∃ u, x = u ++ ['\n'])
    (hy : moduleImport? source y = some rest') (h : moduleImport? source (x ++ y) = some rest) :
    y <:+ rest := by
  obtain ⟨front, q, lit, q', back, hfront, hq, hlit, hq', hback, heq⟩ :=
    moduleImport?_eq_some_iff.1 h
  obtain ⟨front', p, lit', p', back', hfront', hp, -, -, -, rfl⟩ := moduleImport?_eq_some_iff.1 hy
  -- the first quote of the second import is followed by a source, which ends no line
  have hsecond : ∀ w, (∀ c ∈ w, ¬ IsMark c) →
      front' ++ p :: (source ++ (lit' ++ p' :: (back' ++ rest'))) ≠ w ++ q' :: (back ++ rest) := by
    intro w hw hfirst
    obtain ⟨-, hrest⟩ := Icons.append_cons_inj hfront'.not_isMark hp hw hq' hfirst
    exact hs.ne_lineBack hback _ (List.cons.inj hrest).2.symm
  have hnone : ∀ z, front = x ++ z →
      front' ++ p :: (source ++ (lit' ++ p' :: (back' ++ rest'))) ≠
        z ++ q :: (source ++ (lit ++ q' :: (back ++ rest))) := by
    intro z hz hfirst
    have hzmark : ∀ c ∈ z, ¬ IsMark c := fun c hc =>
      hfront.not_isMark c (hz ▸ List.mem_append_right x hc)
    obtain ⟨rfl, -⟩ := Icons.append_cons_inj hfront'.not_isMark hp hzmark hq hfirst
    exact hfront.ne_append hfront' hx hz
  rcases List.append_eq_append_iff.1 heq with ⟨z, hz, hzz⟩ | ⟨z, hz, hzz⟩
  · exact absurd hzz (hnone z hz)
  cases z with
  | nil => exact absurd hzz.symm (hnone [] (by rw [hz, List.append_nil, List.append_nil]))
  | cons d z =>
    obtain ⟨rfl, hz'⟩ := List.cons.inj hzz
    rw [← List.append_assoc] at hz'
    have hquoted : ∀ c ∈ source ++ lit, ¬ IsMark c :=
      List.forall_mem_append.2 ⟨hs.unquoted, hlit⟩
    rcases List.append_eq_append_iff.1 hz' with ⟨w, hw, hww⟩ | ⟨w, hw, hww⟩
    · cases w with
      | nil => exact absurd hww.symm (hsecond [] (by simp))
      | cons e w =>
        -- both quotes are in the line, which ends behind the second one
        obtain ⟨rfl, hback'⟩ := List.cons.inj hww
        obtain ⟨v, rfl⟩ : ∃ v, w = v ++ ['\n'] := by
          obtain ⟨u, hu⟩ := hx
          rw [hw] at hz
          refine exists_concat_newline hq' (u := u) (a := front ++ q :: (source ++ lit)) ?_
          rw [← hu, hz]
          simp only [List.append_assoc, List.cons_append]
        rcases List.append_eq_append_iff.1 hback' with ⟨r, hr, hrest⟩ | ⟨r, hr, hrest⟩
        · exact ⟨r, hrest.symm⟩
        · rw [List.append_assoc, List.singleton_append] at hr
          rw [eq_nil_of_isLineBack hback hr] at hrest
          exact hrest ▸ List.suffix_refl _
    · exact absurd hww (hsecond w fun c hc => hquoted c (hw ▸ List.mem_append_right z hc))

omit hs in
/-- A line that is an import in full is one whatever follows it. -/
theorem moduleImport?_append {l : Text} (hl : ∃ u, l = u ++ ['\n'])
    (h : moduleImport? source l = some []) (t : Text) :
    moduleImport? source (l ++ t) = some t := by
  obtain ⟨front, q, lit, q', back, hfront, hq, hlit, hq', ⟨semi, ind, eol, hsemi, hind, heol, rfl⟩,
    rfl⟩ := moduleImport?_eq_some_iff.1 h
  refine moduleImport?_eq_some_iff.2 ⟨front, q, lit, q', semi ++ ind ++ eol, hfront, hq, hlit, hq',
    ⟨semi, ind, eol, hsemi, hind, ?_, rfl⟩, ?_⟩
  · -- the line ends with a newline, and not for want of more text
    refine heol.imp_right (Or.imp_right ?_)
    rintro ⟨rfl, -⟩
    obtain ⟨u, hu⟩ := hl
    have hline : '\n' ∉ semi ++ ind := by
      rw [List.mem_append, not_or]
      refine ⟨?_, fun hm => absurd (hind _ hm) (by decide)⟩
      rcases hsemi with rfl | rfl <;> decide
    have hends : u ++ ['\n'] = front ++ q :: (source ++ lit) ++ q' :: (semi ++ ind) := by
      simpa using hu.symm
    obtain ⟨v, hv⟩ := exists_concat_newline hq' hends
    exact absurd (hv ▸ List.mem_append_right v List.mem_cons_self) hline
  · simp only [List.append_assoc, List.cons_append, List.append_nil]

end

/-- An import is not empty. -/
theorem exists_of_moduleImport? {source t rest : Text} {c : Char}
    (h : moduleImport? source (c :: t) = some rest) : ∃ x, t = x ++ rest := by
  obtain ⟨front, q, lit, q', back, _, _, _, _, _, heq⟩ := moduleImport?_eq_some_iff.1 h
  cases front with
  | nil => exact ⟨source ++ (lit ++ q' :: back), by rw [(List.cons.inj heq).2]; simp⟩
  | cons d front =>
    exact ⟨front ++ q :: (source ++ (lit ++ q' :: back)), by rw [(List.cons.inj heq).2]; simp⟩

/-! ## The last import -/

section
variable {source : Text} {fresh : Bool} {t rest : Text}

/-- Whether a line begins behind a text, when one begins in front of it or not. -/
def behind (fresh : Bool) (t : Text) : Bool := (t.getLast?.map (· == '\n')).getD fresh

theorem behind_cons (fresh : Bool) (c : Char) (t : Text) :
    behind fresh (c :: t) = behind (c == '\n') t := by
  cases t with
  | nil => rfl
  | cons d t =>
    obtain ⟨e, he⟩ := Option.ne_none_iff_exists'.1
      (mt List.getLast?_eq_none_iff.1 (List.cons_ne_nil d t))
    rw [behind, behind, List.getLast?_cons_cons, he]
    rfl

theorem behind_concat (fresh : Bool) (t : Text) : behind fresh (t ++ ['\n']) = true := by
  simp [behind]

theorem exists_of_behind {t : Text} (h : behind false t = true) : ∃ u, t = u ++ ['\n'] := by
  rcases List.eq_nil_or_concat t with rfl | ⟨u, c, rfl⟩
  · cases h
  · simp only [behind, List.concat_eq_append, List.getLast?_concat, Option.map_some,
      Option.getD_some, beq_iff_eq] at h
    exact ⟨u, by rw [List.concat_eq_append, h]⟩

/-- The characters of an import are passed over. -/
theorem afterLastImport?_busy (x y : Text) :
    afterLastImport? source fresh x.length (x ++ y) =
      afterLastImport? source (behind fresh x) 0 y := by
  induction x generalizing fresh with
  | nil => rfl
  | cons c x ih =>
    rw [List.cons_append, List.length_cons, afterLastImport?, ih, behind_cons]

/-- What follows an import begins a line, or is nothing. -/
theorem behind_of_followsLine (fresh : Bool) {x : Text} (h : FollowsLine rest (x ++ rest)) :
    rest = [] ∨ behind fresh x = true := by
  refine h.imp_right ?_
  rintro ⟨a, ha⟩
  have hx : a ++ ['\n'] ++ rest = x ++ rest := by
    rw [← ha, List.append_assoc, List.singleton_append]
  rw [← List.append_cancel_right hx, behind_concat]

/-- No import begins behind the last one. -/
theorem afterLastImport?_rest {busy : Nat} (h : afterLastImport? source fresh busy t = some rest) :
    afterLastImport? source true 0 rest = none := by
  induction t generalizing fresh busy with
  | nil => cases busy <;> cases h
  | cons c t ih =>
    cases busy with
    | succ busy => exact ih h
    | zero =>
      simp only [afterLastImport?] at h
      split at h
      · rename_i r hr
        rcases Option.or_eq_some_iff.1 h with h | ⟨hnone, h⟩
        · exact ih h
        · obtain rfl := Option.some.inj h
          obtain ⟨-, hr⟩ := Option.ite_none_right_eq_some.1 hr
          obtain ⟨x, rfl⟩ := exists_of_moduleImport? hr
          rw [List.length_append, Nat.add_sub_cancel, afterLastImport?_busy] at hnone
          rcases behind_of_followsLine fresh (x := c :: x) (followsLine_moduleImport? hr) with
            rfl | hb
          · rfl
          · rwa [← behind_cons fresh, hb] at hnone
      · exact ih h

/-- A text without imports has none at the end. -/
theorem afterLastImport?_suffix {x : Text}
    (h : afterLastImport? source fresh 0 (x ++ rest) = none) :
    afterLastImport? source (behind fresh x) 0 rest = none := by
  induction x generalizing fresh with
  | nil => exact h
  | cons c x ih =>
    rw [List.cons_append, afterLastImport?] at h
    rw [behind_cons]
    split at h
    · rw [Option.or_eq_none_iff] at h
      cases h.2
    · exact ih h

theorem behind_of_lastLine {x : Text} (h : lastLine x = []) : behind true x = true := by
  rcases lastLine_eq_nil_iff.1 h with rfl | ⟨u, rfl⟩
  · rfl
  · exact behind_concat true u

/-- Imports that end in front of a place do not hide the last one behind it. -/
theorem exists_afterLastImport? {x y : Text} {busy : Nat} (hb : busy ≤ x.length)
    (hx : behind fresh x = true)
    (hends : ∀ u r, moduleImport? source (u ++ ['\n'] ++ y) = some r → y <:+ r) :
    ∃ o, afterLastImport? source fresh busy (x ++ y) =
      (afterLastImport? source true 0 y).or o := by
  induction x generalizing fresh busy with
  | nil =>
    obtain rfl : busy = 0 := Nat.le_zero.1 hb
    obtain rfl : fresh = true := hx
    exact ⟨none, (Option.or_none).symm⟩
  | cons c x ih =>
    rw [behind_cons] at hx
    cases busy with
    | succ busy => exact ih (Nat.le_of_succ_le_succ hb) hx
    | zero =>
      simp only [List.cons_append, afterLastImport?]
      split
      · rename_i r hr
        obtain ⟨-, hr⟩ := Option.ite_none_right_eq_some.1 hr
        obtain ⟨u, hu⟩ := exists_of_behind ((behind_cons false c x).trans hx)
        obtain ⟨w, rfl⟩ := hends u r (by rw [← hu]; exact hr)
        have hbusy : (x ++ y).length - (w ++ y).length ≤ x.length := by
          simp only [List.length_append]
          omega
        obtain ⟨o, ho⟩ := ih hbusy hx
        exact ⟨o.or (some (w ++ y)), by rw [ho, Option.or_assoc]⟩
      · exact ih (Nat.zero_le _) hx

end

/-! ## Going on behind what was inserted -/

section
variable {source rest : Text} {xs : List Text}

/-- An import on a line of its own is the last one if there is none behind it. -/
theorem afterLastImport?_line {x t : Text}
    (hx : moduleImport? source (terminated x ++ ['\n']) = some []) :
    afterLastImport? source true 0 (terminated x ++ ['\n'] ++ t) =
      (afterLastImport? source true 0 t).or (some t) := by
  have himport := moduleImport?_append ⟨_, rfl⟩ hx t
  have hbehind := behind_concat true (terminated x)
  obtain ⟨c, l, hl⟩ := List.exists_cons_of_ne_nil (show terminated x ++ ['\n'] ≠ [] by simp)
  rw [hl] at himport hbehind ⊢
  rw [behind_cons] at hbehind
  rw [List.cons_append] at himport ⊢
  simp only [afterLastImport?, if_true, himport]
  rw [List.length_append, Nat.add_sub_cancel, afterLastImport?_busy, hbehind]

/-- The last of some imports on lines of their own, with none behind them, is the last one. -/
theorem afterLastImport?_block
    (hxs : ∀ x ∈ xs, moduleImport? source (terminated x ++ ['\n']) = some []) (hne : xs ≠ [])
    (hrest : afterLastImport? source true 0 rest = none) :
    afterLastImport? source true 0 (block xs ++ rest) = some rest := by
  induction xs with
  | nil => exact absurd rfl hne
  | cons x xs ih =>
    obtain ⟨hx, hxs⟩ := List.forall_mem_cons.1 hxs
    have hblock : block (x :: xs) ++ rest = terminated x ++ ['\n'] ++ (block xs ++ rest) := by
      simp [block]
    rw [hblock, afterLastImport?_line hx]
    by_cases hnil : xs = []
    · subst hnil
      exact (congrArg (Option.or · _) hrest).trans (Option.none_or)
    · rw [ih hxs hnil]
      rfl

end

section
variable {s : AnchorSettings} {t : Text} {a : Anchor}

/-- There is no module's import behind the place for imports. -/
theorem afterLastImport?_of_findAnchor (h : findAnchor s t = some a) :
    afterLastImport? s.moduleImportPrefix true 0 a.rest = none := by
  have hbehind : ∀ kind rest, FollowsLine rest t →
      afterLastImport? s.moduleImportPrefix true 0 t = none → anchorBefore kind t rest = a →
      afterLastImport? s.moduleImportPrefix true 0 a.rest = none := by
    rintro kind rest hf hnone rfl
    obtain ⟨front, rfl, hfront⟩ := hf.eq_append
    change afterLastImport? _ true 0 rest = none
    rcases hfront with hfront | rfl
    · have hrest := afterLastImport?_suffix hnone
      rwa [behind_of_lastLine hfront] at hrest
    · rfl
  unfold findAnchor at h
  split at h
  · rename_i rest hr
    obtain rfl := Option.some.inj h
    exact afterLastImport?_rest hr
  · rename_i hnone
    split at h
    · rename_i rest hr
      exact hbehind _ rest (followsLine_afterMarker? hr) hnone (Option.some.inj h)
    · obtain ⟨rest, hr, ha⟩ := Option.map_eq_some_iff.1 h
      exact hbehind _ rest (followsLine_afterLibraryImport? hr) hnone ha

/-- Imports that are inserted in two steps are inserted as they would be in one. -/
theorem splice_inserted (h : findAnchor s t = some a) (xs ys : List Text) :
    (splice (.point .moduleImport (a.before ++ inserted a xs) a.rest []) ys).text =
      (splice a (xs ++ ys)).text := by
  have hline := (inserted_spec (findAnchor_spec h).2 xs).1
  have hnext : inserted (.point .moduleImport (a.before ++ inserted a xs) a.rest []) ys =
      block ys := by
    rw [inserted, lead_eq, if_neg fun hc => hc.2 hline, List.nil_append]
  have hblock : block (xs ++ ys) = block xs ++ block ys := by
    simp only [block, List.map_append, List.flatten_append]
  rw [splice_text, splice_text, hnext, inserted, inserted, hblock]
  simp only [Anchor.point, Anchor.rest, List.append_assoc, List.nil_append]

variable {xs : List Text} (hs : Sourced s.moduleImportPrefix)
  (hxs : ∀ x ∈ xs, moduleImport? s.moduleImportPrefix (terminated x ++ ['\n']) = some [])
  (hne : xs ≠ [])
include hs hxs hne

/-- More imports go right behind those that were inserted. -/
theorem findAnchor_inserted (h : findAnchor s t = some a) :
    findAnchor s (splice a xs).text =
      some (.point .moduleImport (a.before ++ inserted a xs) a.rest []) := by
  have hrest := afterLastImport?_block hxs hne (afterLastImport?_of_findAnchor h)
  have hends : ∀ u r, moduleImport? s.moduleImportPrefix (u ++ ['\n'] ++ (block xs ++ a.rest)) =
      some r → block xs ++ a.rest <:+ r := by
    intro u r hr
    obtain ⟨x, xs, rfl⟩ := List.exists_cons_of_ne_nil hne
    have hblock : block (x :: xs) ++ a.rest = terminated x ++ ['\n'] ++ (block xs ++ a.rest) := by
      simp [block]
    rw [hblock] at hr ⊢
    exact moduleImport?_suffix hs ⟨u, rfl⟩
      (moduleImport?_append ⟨_, rfl⟩ (hxs x List.mem_cons_self) _) hr
  obtain ⟨o, ho⟩ := exists_afterLastImport? (Nat.zero_le _)
    (behind_of_lastLine (lastLine_lead (findAnchor_spec h).2)) hends
  have htext : (splice a xs).text = a.before ++ lead a ++ (block xs ++ a.rest) := by
    rw [splice_text, inserted]
    simp only [List.append_assoc]
  rw [hrest, Option.some_or, ← htext] at ho
  have hcut : upTo (splice a xs).text a.rest = a.before ++ inserted a xs := by
    rw [splice_text, upTo_of_append]
  simp only [findAnchor, ho, anchorBefore, hcut]

end

end Graft.Splice.Imports
