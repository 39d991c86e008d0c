import Graft.Proofs.Text.Identifier
import Graft.Proofs.Text.Suffix

/-!
# What matchers match

A matcher that goes as far as it can is pinned by what it takes and by what it stops at.

* `skipSpaces?_eq_some_iff`, `ident?_eq_some_iff`: blanks and identifiers;
* `skipQuote?_fromQuote_eq_some_iff`: the rest of a literal;
* `skipLineEnd?_eq_some_iff`: the end of a statement and of its line;
* `wordCount_lines`: what follows a line adds its words to those of the line;
* `splitAt_append`, `splitAt_induction`: the parts on both sides of a separator.
-/

namespace Graft.Text

/-- The text is empty or goes on with a character that lacks the property. -/
def Stops (p : Char → Bool) (t : Text) : Prop := ∀ c, t.head? = some c → p c = false

theorem stops_cons {p : Char → Bool} {c : Char} {t : Text} : Stops p (c :: t) ↔ p c = false := by
  simp [Stops]

theorem stops_dropWhile (p : Char → Bool) (t : Text) : Stops p (t.dropWhile p) := by
  intro c hc
  have h := List.head?_dropWhile_not p t
  rw [hc] at h
  simpa using h

theorem takeWhile_append_of_stops {p : Char → Bool} {a b : Text} (ha : ∀ c ∈ a, p c = true)
    (hb : Stops p b) : (a ++ b).takeWhile p = a ∧ (a ++ b).dropWhile p = b := by
  have hnone : b.takeWhile p = [] ∧ b.dropWhile p = b := by
    cases b with
    | nil => exact ⟨rfl, rfl⟩
    | cons c b => simp [stops_cons.1 hb]
  rw [List.takeWhile_append_of_pos ha, List.dropWhile_append_of_pos ha, hnone.1, hnone.2]
  simp

/-! ## Blanks and identifiers -/

theorem skipSpaces?_eq_some_iff {t rest : Text} :
    skipSpaces? t = some rest ↔
      ∃ gap, gap ≠ [] ∧ isBlank gap ∧ Stops isSpace rest ∧ t = gap ++ rest := by
  constructor
  · intro h
    obtain ⟨gap, hne, hg, rfl⟩ := skipSpaces?_eq_append h
    refine ⟨gap, hne, hg, ?_, rfl⟩
    cases gap with
    | nil => exact absurd rfl hne
    | cons c gap =>
      simp only [List.cons_append, skipSpaces?] at h
      split at h
      · rw [← Option.some.inj h]
        exact stops_dropWhile isSpace _
      · cases h
  · rintro ⟨gap, hne, hg, hs, rfl⟩
    cases gap with
    | nil => exact absurd rfl hne
    | cons c gap =>
      have hall := List.all_eq_true.1 hg
      have hgap : ∀ d ∈ gap, isSpace d = true := fun d hd => hall d (List.mem_cons_of_mem c hd)
      rw [List.cons_append, skipSpaces?, if_pos (hall c List.mem_cons_self), trimStart,
        (takeWhile_append_of_stops hgap hs).2]

theorem ident?_eq_some_iff {t name rest : Text} :
    ident? t = some (name, rest) ↔
      ∃ c u, name = c :: u ∧ isIdentStart c = true ∧ (∀ d ∈ u, isIdentRest d = true) ∧
        Stops isIdentRest rest ∧ t = name ++ rest := by
  constructor
  · intro h
    cases t with
    | nil => cases h
    | cons c t =>
      simp only [ident?] at h
      split at h
      · rename_i hc
        obtain ⟨rfl, rfl⟩ := Prod.mk.inj (Option.some.inj h)
        refine ⟨c, _, rfl, hc, List.all_eq_true.1 List.all_takeWhile, stops_dropWhile _ _, ?_⟩
        rw [List.cons_append, List.takeWhile_append_dropWhile]
      · cases h
  · rintro ⟨c, u, rfl, hc, hu, hs, rfl⟩
    obtain ⟨ht, hd⟩ := takeWhile_append_of_stops hu hs
    rw [List.cons_append, ident?, if_pos hc, ht, hd]

/-! ## The end of a literal, of a statement and of a line -/

theorem skipQuote?_fromQuote_eq_some_iff {t rest : Text} :
    skipQuote? (fromQuote t) = some rest ↔
      ∃ lit q, (∀ c ∈ lit, ¬ IsMark c) ∧ IsMark q ∧ t = lit ++ q :: rest := by
  have hmark : ∀ c : Char, (c != '"' && c != '\'') = true ↔ ¬ IsMark c := by
    intro c
    simp [IsMark]
  rw [skipQuote?_eq_some_iff_mark, fromQuote]
  constructor
  · rintro ⟨q, hq, ht⟩
    refine ⟨t.takeWhile fun c => c != '"' && c != '\'', q, fun c hc => ?_, hq, ?_⟩
    · exact (hmark c).1 (List.all_eq_true.1 List.all_takeWhile c hc)
    · rw [← ht, List.takeWhile_append_dropWhile]
  · rintro ⟨lit, q, hlit, hq, rfl⟩
    have hs : Stops (fun c => c != '"' && c != '\'') (q :: rest) :=
      stops_cons.2 (Bool.eq_false_iff.2 fun h => (hmark q).1 h hq)
    exact ⟨q, hq, (takeWhile_append_of_stops (fun c hc => (hmark c).2 (hlit c hc)) hs).2⟩

/-- The end of a statement's line: a semicolon or none, blanks, and what ends the line in front of
`rest`. -/
def IsLineBack (back rest : Text) : Prop :=
  ∃ semi ind eol, (semi = [] ∨ semi = [';']) ∧ (∀ c ∈ ind, isIndent c = true) ∧
    (eol = ['\n'] ∨ eol = ['\r', '\n'] ∨ eol = [] ∧ rest = []) ∧ back = semi ++ ind ++ eol

theorem skipLineEnd?_eq_some_iff {t rest : Text} :
    skipLineEnd? ((skipSemicolon t).dropWhile isIndent) = some rest ↔
      ∃ back, IsLineBack back rest ∧ t = back ++ rest := by
  constructor
  · intro h
    obtain ⟨semi, hsemi, ht⟩ : ∃ semi, (semi = [] ∨ semi = [';']) ∧ t = semi ++ skipSemicolon t := by
      unfold skipSemicolon
      split
      · exact ⟨[';'], .inr rfl, rfl⟩
      · exact ⟨[], .inl rfl, rfl⟩
    obtain ⟨eol, heol, hrest⟩ : ∃ eol,
        (eol = ['\n'] ∨ eol = ['\r', '\n'] ∨ eol = [] ∧ rest = []) ∧
          (skipSemicolon t).dropWhile isIndent = eol ++ rest := by
      unfold skipLineEnd? at h
      split at h
      · rename_i hd
        exact ⟨[], .inr (.inr ⟨rfl, (Option.some.inj h).symm⟩), by rw [← Option.some.inj h, hd]; rfl⟩
      · rename_i hd
        exact ⟨['\n'], .inl rfl, by rw [← Option.some.inj h, hd]; rfl⟩
      · rename_i hd
        exact ⟨['\r', '\n'], .inr (.inl rfl), by rw [← Option.some.inj h, hd]; rfl⟩
      · cases h
    refine ⟨semi ++ (skipSemicolon t).takeWhile isIndent ++ eol,
      ⟨semi, _, eol, hsemi, List.all_eq_true.1 List.all_takeWhile, heol, rfl⟩, ?_⟩
    rw [List.append_assoc, ← hrest, List.append_assoc, List.takeWhile_append_dropWhile, ← ht]
  · rintro ⟨_, ⟨semi, ind, eol, hsemi, hind, heol, rfl⟩, rfl⟩
    have hstop : Stops isIndent (eol ++ rest) ∧ skipLineEnd? (eol ++ rest) = some rest := by
      rcases heol with rfl | rfl | ⟨rfl, rfl⟩
      · exact ⟨stops_cons.2 (by decide), rfl⟩
      · exact ⟨stops_cons.2 (by decide), rfl⟩
      · exact ⟨by simp [Stops], rfl⟩
    have hskip : skipSemicolon (semi ++ (ind ++ (eol ++ rest))) = ind ++ (eol ++ rest) := by
      rcases hsemi with rfl | rfl
      · unfold skipSemicolon
        split
        · rename_i heq
          cases ind with
          | nil =>
            rcases heol with rfl | rfl | ⟨rfl, rfl⟩
            · cases heq
            · cases heq
            · cases heq
          | cons c ind =>
            obtain ⟨rfl, -⟩ := List.cons.inj heq
            exact absurd (hind _ List.mem_cons_self) (by decide)
        · rfl
      · rfl
    rw [List.append_assoc, List.append_assoc, hskip, (takeWhile_append_of_stops hind hstop.1).2,
      hstop.2]

/-! ## Words -/

/-- The number of words, with blanks between them, in a text behind a blank or behind none. -/
def wordCount : Bool → Text → Nat
  | _, [] => 0
  | behind, c :: t => (if behind && !isSpace c then 1 else 0) + wordCount (isSpace c) t

theorem wordCount_blank {gap : Text} (hg : isBlank gap) (t : Text) :
    wordCount true (gap ++ t) = wordCount true t := by
  induction gap with
  | nil => rfl
  | cons c gap ih =>
    rw [isBlank, List.all_cons, Bool.and_eq_true] at hg
    simp [wordCount, hg.1, ih hg.2]

theorem wordCount_gap {gap : Text} (hne : gap ≠ []) (hg : isBlank gap) (behind : Bool) (t : Text) :
    wordCount behind (gap ++ t) = wordCount true t := by
  cases gap with
  | nil => exact absurd rfl hne
  | cons c gap =>
    rw [isBlank, List.all_cons, Bool.and_eq_true] at hg
    simp [wordCount, hg.1, wordCount_blank hg.2]

theorem wordCount_word {w : Text} (hne : w ≠ []) (hw : ∀ c ∈ w, isSpace c = false) (t : Text) :
    wordCount true (w ++ t) = 1 + wordCount false t := by
  have hrest : ∀ u : Text, (∀ c ∈ u, isSpace c = false) →
      wordCount false (u ++ t) = wordCount false t := by
    intro u hu
    induction u with
    | nil => rfl
    | cons c u ih =>
      obtain ⟨hc, hu⟩ := List.forall_mem_cons.1 hu
      simp [wordCount, hc, ih hu]
  cases w with
  | nil => exact absurd rfl hne
  | cons c w =>
    obtain ⟨hc, hw⟩ := List.forall_mem_cons.1 hw
    simp [wordCount, hc, hrest w hw]

/-- What follows a line adds its words to those of the line. -/
theorem wordCount_lines (behind : Bool) (x t : Text) :
    wordCount behind (x ++ '\n' :: t) = wordCount behind x + wordCount true t := by
  induction x generalizing behind with
  | nil =>
    have hn : isSpace '\n' = true := rfl
    simp [wordCount, hn]
  | cons c x ih => rw [List.cons_append, wordCount, ih, wordCount, Nat.add_assoc]

theorem isBlank_of_wordCount {x : Text} (h : wordCount true x = 0) : isBlank x := by
  induction x with
  | nil => rfl
  | cons c x ih =>
    rw [wordCount] at h
    have hc : isSpace c = true := by
      cases hs : isSpace c with
      | true => rfl
      | false => simp [hs] at h
    rw [hc] at h
    rw [isBlank, List.all_cons, hc, Bool.true_and]
    exact ih (by simpa using h)

/-! ## Separators -/

theorem splitAt_ne_nil (sep : Char) (t : Text) : splitAt sep t ≠ [] := by
  cases t with
  | nil => simp [splitAt]
  | cons c t =>
    simp only [splitAt]
    split
    · simp
    · split <;> simp

theorem splitAt_append (sep : Char) (a b : Text) :
    splitAt sep (a ++ sep :: b) = splitAt sep a ++ splitAt sep b := by
  induction a with
  | nil => simp [splitAt]
  | cons c a ih =>
    simp only [List.cons_append, splitAt, ih]
    split
    · rfl
    · cases h : splitAt sep a with
      | nil => exact absurd h (splitAt_ne_nil sep a)
      | cons part parts => rfl

theorem splitAt_of_notMem {sep : Char} {t : Text} (h : sep ∉ t) : splitAt sep t = [t] := by
  induction t with
  | nil => rfl
  | cons c t ih =>
    obtain ⟨hc, ht⟩ := not_or.1 (mt List.mem_cons.2 h)
    rw [splitAt, if_neg (Ne.symm hc), ih ht]

/-- What holds of a text without the separator, and of a text with one more part in front of it,
holds of every text. -/
theorem splitAt_induction (sep : Char) {P : Text → Prop} (last : ∀ l, sep ∉ l → P l)
    (part : ∀ l t, sep ∉ l → P t → P (l ++ sep :: t)) (t : Text) : P t := by
  induction hn : t.length using Nat.strongRecOn generalizing t with
  | ind n ih =>
    by_cases h : sep ∈ t
    · obtain ⟨l, u, rfl, hl⟩ := List.eq_append_cons_of_mem h
      refine part l u hl (ih _ ?_ u rfl)
      rw [← hn, List.length_append, List.length_cons]
      omega
    · exact last t h

end Graft.Text
