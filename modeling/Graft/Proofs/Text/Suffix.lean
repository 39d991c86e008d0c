import Graft.Proofs.Text.Occurrence
import Graft.Text.Pattern

/-!
# What matchers leave

Every matcher leaves a suffix of the text it is given.

* `skipSpaced?_eq_some_iff`: a word that begins with no blank is found behind all the blanks;
* `FollowsLine.eq_append`: where a matcher has gone to the end of a line, what it leaves begins a
  line of the text.
-/

namespace Graft.Text

theorem skip?_suffix {w t rest : Text} (h : skip? w t = some rest) : rest <:+ t :=
  ⟨w, (skip?_eq_some_iff.1 h).symm⟩

theorem skipSpaced?_suffix {w t rest : Text} (h : skipSpaced? w t = some rest) : rest <:+ t := by
  obtain ⟨gap, _, rfl⟩ := skipSpaced?_eq_append h
  exact List.suffix_append _ _

theorem skipApart?_eq_append {w t rest : Text} (h : skipApart? w t = some rest) :
    ∃ gap, gap ≠ [] ∧ isBlank gap ∧ t = gap ++ w ++ rest := by
  cases t with
  | nil => cases h
  | cons c t =>
    simp only [skipApart?] at h
    split at h
    · rename_i hc
      obtain ⟨gap, hg, rfl⟩ := skipSpaced?_eq_append h
      refine ⟨c :: gap, List.cons_ne_nil c gap, ?_, rfl⟩
      simp only [isBlank, List.all_cons, hc, Bool.true_and] at *
      exact hg
    · cases h

theorem skipApart?_suffix {w t rest : Text} (h : skipApart? w t = some rest) : rest <:+ t := by
  obtain ⟨gap, _, _, rfl⟩ := skipApart?_eq_append h
  exact List.suffix_append _ _

theorem skipSpaces?_eq_append {t rest : Text} (h : skipSpaces? t = some rest) :
    ∃ gap, gap ≠ [] ∧ isBlank gap ∧ t = gap ++ rest := by
  cases t with
  | nil => cases h
  | cons c t =>
    simp only [skipSpaces?] at h
    split at h
    · rename_i hc
      obtain rfl := Option.some.inj h
      refine ⟨c :: t.takeWhile isSpace, List.cons_ne_nil _ _, ?_, ?_⟩
      · simp [isBlank, hc]
      · simp [trimStart]
    · cases h

theorem skipSpaces?_suffix {t rest : Text} (h : skipSpaces? t = some rest) : rest <:+ t := by
  obtain ⟨gap, _, _, rfl⟩ := skipSpaces?_eq_append h
  exact List.suffix_append _ _

theorem skipQuote?_eq_some_iff {t rest : Text} :
    skipQuote? t = some rest ↔ t = '"' :: rest ∨ t = '\'' :: rest := by
  cases t with
  | nil => simp [skipQuote?]
  | cons c t =>
    simp only [skipQuote?, List.cons.injEq]
    split
    · rename_i hc
      rcases hc with rfl | rfl <;> simp
    · rename_i hc
      simp only [not_or] at hc
      simp [hc.1, hc.2]

theorem skipQuote?_suffix {t rest : Text} (h : skipQuote? t = some rest) : rest <:+ t := by
  rcases skipQuote?_eq_some_iff.1 h with rfl | rfl
  · exact List.suffix_cons _ _
  · exact List.suffix_cons _ _

theorem skipSemicolon_suffix (t : Text) : skipSemicolon t <:+ t := by
  unfold skipSemicolon
  split
  · exact List.suffix_cons _ _
  · exact List.suffix_refl _

theorem ident?_suffix {t name rest : Text} (h : ident? t = some (name, rest)) : rest <:+ t :=
  ⟨name, ident?_append h⟩

theorem fromQuote_suffix (t : Text) : fromQuote t <:+ t := List.dropWhile_suffix _

theorem trimStart_suffix (t : Text) : trimStart t <:+ t := List.dropWhile_suffix _

/-! ## Words behind blanks

A word that does not itself begin with a blank is found behind all the blanks. -/

theorem skipSpaced?_eq_some_iff {w t rest : Text} (hw : Firm w) :
    skipSpaced? w t = some rest ↔ ∃ gap, isBlank gap ∧ t = gap ++ w ++ rest := by
  refine ⟨skipSpaced?_eq_append, ?_⟩
  rintro ⟨gap, hg, rfl⟩
  induction gap with
  | nil =>
    obtain ⟨c, u, rfl, hc⟩ := hw
    simp [skipSpaced?, hc, skip?_eq_some_iff]
  | cons c gap ih =>
    rw [isBlank, List.all_cons, Bool.and_eq_true] at hg
    simp only [List.cons_append, skipSpaced?, hg.1, if_true, ih hg.2, Option.some_or]

theorem skipApart?_eq_some_iff {w t rest : Text} (hw : Firm w) :
    skipApart? w t = some rest ↔ ∃ gap, gap ≠ [] ∧ isBlank gap ∧ t = gap ++ w ++ rest := by
  refine ⟨skipApart?_eq_append, ?_⟩
  rintro ⟨gap, hne, hg, rfl⟩
  cases gap with
  | nil => exact absurd rfl hne
  | cons c gap =>
    rw [isBlank, List.all_cons, Bool.and_eq_true] at hg
    simp only [List.cons_append, skipApart?, hg.1, if_true]
    exact (skipSpaced?_eq_some_iff hw).2 ⟨gap, hg.2, rfl⟩

/-- The quotes that a matcher takes for either end of a literal. -/
def IsMark (c : Char) : Prop := c = '"' ∨ c = '\''

theorem IsMark.isSpace {c : Char} (h : IsMark c) : isSpace c = false := by
  rcases h with rfl | rfl <;> rfl

theorem skipQuote?_eq_some_iff_mark {t rest : Text} :
    skipQuote? t = some rest ↔ ∃ q, IsMark q ∧ t = q :: rest := by
  rw [skipQuote?_eq_some_iff]
  constructor
  · rintro (rfl | rfl)
    · exact ⟨_, .inl rfl, rfl⟩
    · exact ⟨_, .inr rfl, rfl⟩
  · rintro ⟨q, rfl | rfl, rfl⟩
    · exact .inl rfl
    · exact .inr rfl

theorem trimStart_blank_append {gap t : Text} (hg : isBlank gap) :
    trimStart (gap ++ t) = trimStart t :=
  List.dropWhile_append_of_pos (List.all_eq_true.1 hg)

theorem skipQuote?_trimStart_eq_some_iff {t rest : Text} :
    skipQuote? (trimStart t) = some rest ↔
      ∃ gap q, isBlank gap ∧ IsMark q ∧ t = gap ++ q :: rest := by
  rw [skipQuote?_eq_some_iff_mark]
  constructor
  · rintro ⟨q, hq, ht⟩
    refine ⟨t.takeWhile isSpace, q, List.all_takeWhile, hq, ?_⟩
    rw [← ht, trimStart, List.takeWhile_append_dropWhile]
  · rintro ⟨gap, q, hg, hq, rfl⟩
    refine ⟨q, hq, ?_⟩
    rw [trimStart_blank_append hg, trimStart, List.dropWhile_cons_of_neg (by simp [hq.isSpace])]

/-! ## Places at which a line begins -/

/-- `rest` follows a line of the text, or is empty. -/
def FollowsLine (rest t : Text) : Prop := rest = [] ∨ '\n' :: rest <:+ t

theorem FollowsLine.of_suffix {rest t t' : Text} (h : FollowsLine rest t) (ht : t <:+ t') :
    FollowsLine rest t' :=
  h.imp_right fun h => h.trans ht

theorem followsLine_skipLineEnd? {t rest : Text} (h : skipLineEnd? t = some rest) :
    FollowsLine rest t := by
  unfold skipLineEnd? at h
  split at h
  · exact .inl (Option.some.inj h).symm
  · obtain rfl := Option.some.inj h
    exact .inr (List.suffix_refl _)
  · obtain rfl := Option.some.inj h
    exact .inr (List.suffix_cons _ _)
  · cases h

theorem followsLine_splitLine (t : Text) : FollowsLine (splitLine t).2 t := by
  induction t with
  | nil => exact .inl rfl
  | cons c t ih =>
    simp only [splitLine]
    split
    · rename_i hc
      subst hc
      exact .inr (List.suffix_refl _)
    · exact ih.of_suffix (List.suffix_cons c t)

theorem lastLine_concat_newline (a : Text) : lastLine (a ++ ['\n']) = [] :=
  lastLine_eq_nil_iff.2 (.inr ⟨a, rfl⟩)

/-- The text in front of what follows a line ends at the start of a line, or is the whole text. -/
theorem FollowsLine.eq_append {rest t : Text} (h : FollowsLine rest t) :
    ∃ front, t = front ++ rest ∧ (lastLine front = [] ∨ rest = []) := by
  rcases h with rfl | ⟨a, ha⟩
  · exact ⟨t, by simp, .inr rfl⟩
  · exact ⟨a ++ ['\n'], by simp [← ha], .inl (lastLine_concat_newline a)⟩

end Graft.Text
