import Graft.Proofs.Text.Block
import Graft.Proofs.Text.Piece
import Graft.Text.Comment

/-!
# Texts without their comments

* `commentCut?_append_of_some`, `commentCut?_append_of_notMem`: what follows a line belongs to the
  comment that it ends in, if it does, and opens none without a slash;
* `uncommented_newline`: a text loses its comments line by line;
* `uncommented_append_of_comment`, `uncommented_append_of_code`: what follows on the last line is
  lost in its comment, or kept;
* `exists_of_codeCut?`: behind the last code of a text there are but blanks and comments, and a
  comma goes in front of them.
-/

namespace Graft.Text

/-! ## The comment of a line -/

theorem commentCut?_cons_eq_none_iff {s : Quoting} {c : Char} {t : Text} :
    commentCut? s (c :: t) = none ↔
      ¬ (s = .code ∧ startsWith "//".toList (c :: t)) ∧ commentCut? (s.next c) t = none := by
  rw [commentCut?]
  split
  · rename_i h
    exact iff_of_false (Option.some_ne_none _) fun hn => hn.1 h
  · rename_i h
    rw [Option.map_eq_none_iff, and_iff_right h]

/-- Where the comment of a line begins: at its first character, or where that of the rest does. -/
theorem commentCut?_cons_eq_some_iff {s : Quoting} {c : Char} {t code comment : Text} :
    commentCut? s (c :: t) = some (code, comment) ↔
      (s = .code ∧ startsWith "//".toList (c :: t)) ∧ code = [] ∧ comment = c :: t ∨
        ¬ (s = .code ∧ startsWith "//".toList (c :: t)) ∧
          ∃ u, commentCut? (s.next c) t = some (u, comment) ∧ code = c :: u := by
  rw [commentCut?]
  split
  · rename_i h
    rw [Option.some.injEq, Prod.mk.injEq, or_iff_left fun hn => hn.1 h, and_iff_right h]
    exact and_congr eq_comm eq_comm
  · rename_i h
    rw [or_iff_right fun hc => h hc.1, and_iff_right h, Option.map_eq_some_iff]
    constructor
    · rintro ⟨⟨u, v⟩, hu, hp⟩
      obtain ⟨rfl, rfl⟩ := Prod.mk.inj hp
      exact ⟨u, hu, rfl⟩
    · rintro ⟨u, hu, rfl⟩
      exact ⟨_, hu, rfl⟩

theorem startsWith_slashes_iff {t : Text} :
    startsWith "//".toList t ↔ ∃ u, t = '/' :: '/' :: u := by
  rw [startsWith_iff_isPrefix]
  exact exists_congr fun _ => eq_comm

/-- Whether two slashes begin a text is told by its first two characters. -/
theorem startsWith_slashes_append {c : Char} {line t : Text}
    (h : startsWith "//".toList (c :: (line ++ t))) (ht : line = [] → t.head? ≠ some '/')
    (t' : Text) : startsWith "//".toList (c :: (line ++ t')) := by
  obtain ⟨u, hu⟩ := startsWith_slashes_iff.1 h
  obtain ⟨rfl, hrest⟩ := List.cons.inj hu
  cases line with
  | nil => exact absurd (by rw [← List.nil_append t, hrest]; rfl) (ht rfl)
  | cons d line =>
    obtain ⟨rfl, -⟩ := List.cons.inj hrest
    exact startsWith_slashes_iff.2 ⟨line ++ t', rfl⟩

theorem commentCut?_comment {s : Quoting} {line code comment : Text}
    (h : commentCut? s line = some (code, comment)) : ∃ u, comment = '/' :: '/' :: u := by
  induction line generalizing s code with
  | nil => cases h
  | cons c t ih =>
    rcases commentCut?_cons_eq_some_iff.1 h with ⟨⟨-, hs⟩, -, rfl⟩ | ⟨-, u, hu, -⟩
    · exact startsWith_slashes_iff.1 hs
    · exact ih hu

/-- What follows a line with a comment belongs to the comment. -/
theorem commentCut?_append_of_some {s : Quoting} {line code comment : Text}
    (h : commentCut? s line = some (code, comment)) (t : Text) :
    commentCut? s (line ++ t) = some (code, comment ++ t) := by
  induction line generalizing s code with
  | nil => cases h
  | cons c line ih =>
    rw [List.cons_append, commentCut?_cons_eq_some_iff]
    rcases commentCut?_cons_eq_some_iff.1 h with ⟨⟨hs, hc⟩, rfl, rfl⟩ | ⟨hn, u, hu, rfl⟩
    · obtain ⟨u, hu⟩ := startsWith_slashes_iff.1 hc
      refine .inl ⟨⟨hs, startsWith_slashes_iff.2 ⟨u ++ t, ?_⟩⟩, rfl, rfl⟩
      rw [← List.cons_append, hu]
      rfl
    · refine .inr ⟨fun hc => hn ⟨hc.1, ?_⟩, u, ih hu, rfl⟩
      have hline : line ≠ [] := by
        rintro rfl
        cases hu
      have hslashes := startsWith_slashes_append hc.2 (fun hnil => absurd hnil hline) []
      rwa [List.append_nil] at hslashes

/-- What follows a line without a comment opens none if it has no slash. -/
theorem commentCut?_append_of_notMem {s : Quoting} {line t : Text} (h : commentCut? s line = none)
    (ht : '/' ∉ t) : commentCut? s (line ++ t) = none := by
  induction line generalizing s with
  | nil =>
    clear h
    induction t generalizing s with
    | nil => rfl
    | cons c t ih =>
      obtain ⟨hc, ht⟩ := not_or.1 (mt List.mem_cons.2 ht)
      rw [List.nil_append, commentCut?_cons_eq_none_iff]
      refine ⟨?_, ih ht⟩
      rintro ⟨-, hs⟩
      obtain ⟨u, hu⟩ := startsWith_slashes_iff.1 hs
      exact hc (List.cons.inj hu).1.symm
  | cons c line ih =>
    obtain ⟨hn, hline⟩ := commentCut?_cons_eq_none_iff.1 h
    rw [List.cons_append, commentCut?_cons_eq_none_iff]
    refine ⟨fun hc => hn ⟨hc.1, ?_⟩, ih hline⟩
    have hslashes := startsWith_slashes_append hc.2 (fun _ hh => ht (List.mem_of_head? hh)) []
    rwa [List.append_nil] at hslashes

theorem isQuote_of_isSpace {c : Char} (h : isSpace c = true) : isQuote c = false := by
  refine Bool.eq_false_iff.2 fun hq => ?_
  simp only [isQuote, Bool.or_eq_true, beq_iff_eq] at hq
  rcases hq with (rfl | rfl) | rfl <;> exact absurd h (by decide)

/-- Blanks in front of a line open no comment and no literal. -/
theorem commentCut?_blank_append {gap : Text} (hg : isBlank gap) (t : Text) :
    commentCut? .code (gap ++ t) = none ↔ commentCut? .code t = none := by
  induction gap with
  | nil => rfl
  | cons c gap ih =>
    obtain ⟨hc, hg⟩ := isBlank_cons_iff.1 hg
    have hcode : Quoting.next .code c = .code := by simp [Quoting.next, isQuote_of_isSpace hc]
    rw [List.cons_append, commentCut?_cons_eq_none_iff, hcode, startsWith_slashes_iff, ih hg]
    refine and_iff_right ?_
    rintro ⟨-, u, hu⟩
    obtain ⟨rfl, -⟩ := List.cons.inj hu
    cases hc

/-! ## The code of a line -/

theorem codePart_of_none {line : Text} (h : commentCut? .code line = none) :
    codePart line = line := by
  rw [codePart, h]

theorem codePart_append_of_some {line : Text} (h : (commentCut? .code line).isSome) (t : Text) :
    codePart (line ++ t) = codePart line := by
  obtain ⟨⟨code, comment⟩, hcut⟩ := Option.isSome_iff_exists.1 h
  rw [codePart, codePart, commentCut?_append_of_some hcut, hcut]

theorem codePart_append_of_none {line t : Text} (h : commentCut? .code line = none)
    (ht : '/' ∉ t) : codePart (line ++ t) = codePart line ++ t := by
  rw [codePart_of_none h, codePart_of_none (commentCut?_append_of_notMem h ht)]

theorem isBlank_codePart {line : Text} (h : isBlank line) : isBlank (codePart line) :=
  List.all_eq_true.2 fun c hc => List.all_eq_true.1 h c ((codePart_isPrefix line).subset hc)

/-- The quotes of a scan are characters that open a literal. -/
def Quoting.Valid : Quoting → Prop
  | .code => True
  | .quoted q | .escaped q => isQuote q = true

theorem Quoting.Valid.next {s : Quoting} (h : s.Valid) (c : Char) : (s.next c).Valid := by
  cases s with
  | code =>
    simp only [Quoting.next]
    split
    · assumption
    · trivial
  | quoted q =>
    simp only [Quoting.next]
    split
    · exact h
    · split
      · trivial
      · exact h
  | escaped q => exact h

/-- Only a quote ends a literal. -/
theorem Quoting.Valid.eq_code {s : Quoting} (h : s.Valid) {c : Char} (hc : isQuote c = false)
    (hn : s.next c = .code) : s = .code := by
  cases s with
  | code => rfl
  | quoted q =>
    simp only [Quoting.next] at hn
    split at hn
    · cases hn
    · split at hn
      · rename_i hq
        rw [hq] at hc
        exact absurd h (by simp [Valid, hc])
      · cases hn
  | escaped q => cases hn

/-- A comment behind blanks is one only where the blanks are in no literal. -/
theorem eq_code_of_commentCut? {s : Quoting} (hs : s.Valid) {gap comment : Text}
    (hg : isBlank gap) (h : commentCut? s (gap ++ comment) = some (gap, comment)) : s = .code := by
  induction gap generalizing s with
  | nil =>
    cases comment with
    | nil => cases h
    | cons c comment =>
      rcases commentCut?_cons_eq_some_iff.1 h with ⟨⟨hs, -⟩, -⟩ | ⟨-, u, -, hu⟩
      · exact hs
      · cases hu
  | cons c gap ih =>
    obtain ⟨hc, hg⟩ := isBlank_cons_iff.1 hg
    rcases commentCut?_cons_eq_some_iff.1 h with ⟨-, hnil, -⟩ | ⟨-, u, hu, hcons⟩
    · cases hnil
    · obtain ⟨-, rfl⟩ := List.cons.inj hcons
      exact hs.eq_code (isQuote_of_isSpace hc) (ih (hs.next c) hg hu)

/-- A comma goes in front of the blanks and the comment behind a line's code. -/
theorem commentCut?_comma {s : Quoting} (hs : s.Valid) {code gap comment : Text}
    (hg : isBlank gap)
    (h : commentCut? s (code ++ (gap ++ comment)) = some (code ++ gap, comment)) :
    commentCut? s (code ++ ',' :: (gap ++ comment)) = some (code ++ ',' :: gap, comment) := by
  induction code generalizing s with
  | nil =>
    obtain rfl := eq_code_of_commentCut? hs hg h
    refine commentCut?_cons_eq_some_iff.2 (.inr ⟨?_, gap, h, rfl⟩)
    rintro ⟨-, hc⟩
    obtain ⟨u, hu⟩ := startsWith_slashes_iff.1 hc
    exact absurd (List.cons.inj hu).1 (by decide)
  | cons c code ih =>
    rcases commentCut?_cons_eq_some_iff.1 h with ⟨-, hnil, -⟩ | ⟨hn, u, hu, hcons⟩
    · cases hnil
    · obtain ⟨-, rfl⟩ := List.cons.inj hcons
      refine commentCut?_cons_eq_some_iff.2
        (.inr ⟨fun hc => hn ⟨hc.1, ?_⟩, _, ih (hs.next c) hu, rfl⟩)
      exact startsWith_slashes_append hc.2 (fun _ => by simp) _

/-- A line is its code, blanks behind that and its comment, and a comma may go between them. -/
theorem exists_codePart (line : Text) :
    ∃ gap comment, line = trimEnd (codePart line) ++ (gap ++ comment) ∧ isBlank gap ∧
      codePart line = trimEnd (codePart line) ++ gap ∧
      codePart (trimEnd (codePart line) ++ ',' :: (gap ++ comment)) =
        trimEnd (codePart line) ++ ',' :: gap := by
  have hblank := isBlank_trailing (codePart line)
  have hcut := (trimEnd_append_trailing (codePart line)).symm
  cases hline : commentCut? .code line with
  | none =>
    have hpart := codePart_of_none hline
    refine ⟨trailing (codePart line), [], ?_, hblank, hcut, ?_⟩
    · rw [List.append_nil, trimEnd_append_trailing, hpart]
    · rw [List.append_nil]
      generalize trimEnd (codePart line) = code at *
      generalize trailing (codePart line) = gap at *
      rw [← hpart, hcut] at hline
      refine codePart_of_none (commentCut?_append_of_notMem ?_ ?_)
      · refine Option.eq_none_iff_forall_ne_some.2 fun p hp => ?_
        rw [commentCut?_append_of_some hp] at hline
        cases hline
      · rw [List.mem_cons, not_or]
        exact ⟨by decide, notMem_of_isBlank hblank rfl⟩
  | some p =>
    obtain ⟨code, comment⟩ := p
    have hpart : codePart line = code := by rw [codePart, hline]
    have happend := commentCut?_eq_append hline
    rw [hpart] at hcut hblank ⊢
    refine ⟨trailing code, comment, ?_, hblank, hcut, ?_⟩
    · rw [← List.append_assoc, trimEnd_append_trailing, happend]
    · generalize trimEnd code = word at *
      generalize trailing code = gap at *
      subst hcut
      rw [happend, List.append_assoc] at hline
      have hcomma := commentCut?_comma (s := .code) trivial hblank hline
      rw [codePart, hcomma]

/-! ## The lines of a text -/

/-- What holds of a text on one line, and of a text with one more line in front of it, holds of
every text. -/
theorem lines_induction {P : Text → Prop} (last : ∀ l, '\n' ∉ l → P l)
    (line : ∀ l t, '\n' ∉ l → P t → P (l ++ '\n' :: t)) (t : Text) : P t :=
  splitAt_induction '\n' last line t

/-- A text without the line comments on its lines. -/
def uncommented (t : Text) : Text := joinWith ['\n'] ((splitAt '\n' t).map codePart)

/-- Whether the last line of a text has a comment, to which belongs what follows on that line. -/
def endsInComment (t : Text) : Bool := (commentCut? .code (lastLine t)).isSome

theorem uncommented_of_notMem {t : Text} (h : '\n' ∉ t) : uncommented t = codePart t := by
  rw [uncommented, splitAt_of_notMem h]
  rfl

theorem uncommented_nil : uncommented [] = [] := rfl

/-- A text loses its comments line by line. -/
theorem uncommented_newline (a b : Text) :
    uncommented (a ++ '\n' :: b) = uncommented a ++ '\n' :: uncommented b := by
  rw [uncommented, splitAt_append, List.map_append,
    joinWith_append (by simpa using splitAt_ne_nil _ a) (by simpa using splitAt_ne_nil _ b),
    List.append_assoc]
  rfl

theorem uncommented_concat_newline (t : Text) :
    uncommented (t ++ ['\n']) = uncommented t ++ ['\n'] :=
  uncommented_newline t []

/-- Whole lines lose their comments apart from what follows them. -/
theorem uncommented_append {a : Text} (ha : lastLine a = []) (b : Text) :
    uncommented (a ++ b) = uncommented a ++ uncommented b := by
  rcases lastLine_eq_nil_iff.1 ha with rfl | ⟨a, rfl⟩
  · rfl
  · rw [List.append_assoc, List.singleton_append, uncommented_newline, uncommented_concat_newline,
      List.append_assoc]
    rfl

theorem uncommented_line {l : Text} (hl : '\n' ∉ l) (t : Text) :
    uncommented (l ++ '\n' :: t) = codePart l ++ '\n' :: uncommented t := by
  rw [uncommented_newline, uncommented_of_notMem hl]

theorem isBlank_uncommented {t : Text} (h : isBlank t) : isBlank (uncommented t) := by
  induction t using lines_induction with
  | last l hl =>
    rw [uncommented_of_notMem hl]
    exact isBlank_codePart h
  | line l t hl ih =>
    obtain ⟨hl', ht⟩ := isBlank_append_iff.1 h
    rw [uncommented_line hl]
    exact isBlank_append (isBlank_codePart hl')
      (isBlank_cons_iff.2 ⟨rfl, ih (isBlank_cons_iff.1 ht).2⟩)

/-- What stands on the last line of a text loses the comment of that line. -/
theorem exists_uncommented_append (t : Text) :
    ∃ p, ∀ u, '\n' ∉ u → uncommented (t ++ u) = p ++ codePart (lastLine t ++ u) := by
  induction t using lines_induction with
  | last l hl =>
    refine ⟨[], fun u hu => ?_⟩
    rw [uncommented_of_notMem (by simp [hl, hu]), lastLine_of_oneLine hl]
    rfl
  | line l t hl ih =>
    obtain ⟨p, hp⟩ := ih
    refine ⟨codePart l ++ '\n' :: p, fun u hu => ?_⟩
    have hlast : lastLine (l ++ '\n' :: t) = lastLine t := by
      have hcut : l ++ '\n' :: t = (l ++ ['\n']) ++ t := by simp
      rw [hcut, lastLine_append (lastLine_concat_newline l)]
    rw [List.append_assoc, List.cons_append, uncommented_line hl, hp u hu, hlast]
    simp

theorem uncommented_append_of_comment {t u : Text} (h : endsInComment t = true) (hu : '\n' ∉ u) :
    uncommented (t ++ u) = uncommented t := by
  obtain ⟨p, hp⟩ := exists_uncommented_append t
  have hnil := hp [] List.not_mem_nil
  rw [List.append_nil, List.append_nil] at hnil
  rw [hp u hu, hnil, codePart_append_of_some h]

/-- What has no slash has no comment. -/
theorem uncommented_of_slash_notMem {t : Text} (h : '/' ∉ t) : uncommented t = t := by
  have hline : ∀ l : Text, '/' ∉ l → codePart l = l := fun l hl =>
    codePart_of_none (commentCut?_append_of_notMem (rfl : commentCut? .code [] = none) hl)
  induction t using lines_induction with
  | last l hl => rw [uncommented_of_notMem hl, hline l h]
  | line l t hl ih =>
    simp only [List.mem_append, List.mem_cons, not_or] at h
    rw [uncommented_line hl, hline l h.1, ih h.2.2]

theorem uncommented_append_of_code {t u : Text} (h : endsInComment t = false) (hu : '/' ∉ u) :
    uncommented (t ++ u) = uncommented t ++ u := by
  obtain ⟨p, hp⟩ := exists_uncommented_append t
  have hnil := hp [] List.not_mem_nil
  rw [List.append_nil, List.append_nil] at hnil
  have hnone : commentCut? .code (lastLine t) = none :=
    Option.isNone_iff_eq_none.1 (Option.isSome_eq_false_iff.1 h)
  have hline : ∀ l, '\n' ∉ l → '/' ∉ l → uncommented (t ++ l) = uncommented t ++ l := by
    intro l hn hl
    rw [hp l hn, hnil, codePart_append_of_none hnone hl, List.append_assoc]
  by_cases hn : '\n' ∈ u
  · obtain ⟨l, v, rfl, hl⟩ := List.eq_append_cons_of_mem hn
    simp only [List.mem_append, List.mem_cons, not_or] at hu
    rw [← List.append_assoc, uncommented_newline, hline l hl hu.1,
      uncommented_of_slash_notMem hu.2.2, List.append_assoc]
  · exact hline u hn hu

/-- A text that ends in code ends as it does without its comments. -/
theorem exists_uncommented_concat {u : Text} {c : Char} (hc : isSpace c = false)
    (h : endsInComment (u ++ [c]) = false) : ∃ v, uncommented (u ++ [c]) = v ++ [c] := by
  obtain ⟨p, hp⟩ := exists_uncommented_append (u ++ [c])
  have hnone := Option.isNone_iff_eq_none.1 (Option.isSome_eq_false_iff.1 h)
  have hnil := hp [] List.not_mem_nil
  rw [List.append_nil, List.append_nil, codePart_of_none hnone, lastLine_concat hc] at hnil
  exact ⟨p ++ lastLine u, by rw [hnil, List.append_assoc]⟩

/-- A text keeps its lines. -/
theorem newline_mem_uncommented_iff {t : Text} : '\n' ∈ uncommented t ↔ '\n' ∈ t := by
  by_cases h : '\n' ∈ t
  · obtain ⟨a, b, rfl⟩ := List.append_of_mem h
    rw [uncommented_newline]
    simp
  · rw [uncommented_of_notMem h]
    exact iff_of_false (fun hm => h ((codePart_isPrefix t).subset hm)) h

/-- A text without code whose last line is not blank ends in a comment. -/
theorem endsInComment_of_isBlank {t : Text} (h : isBlank (uncommented t))
    (hl : isBlank (lastLine t) = false) : endsInComment t := by
  refine Bool.of_not_eq_false fun hcode => ?_
  obtain ⟨p, hp⟩ := exists_uncommented_append t
  have hnil := hp [] List.not_mem_nil
  rw [List.append_nil, List.append_nil,
    codePart_of_none (Option.isSome_eq_false_iff.1 hcode |> Option.isNone_iff_eq_none.1)] at hnil
  rw [hnil, isBlank_append_iff, hl] at h
  cases h.2

/-- Blanks behind a text are lost in its comment, or kept. -/
theorem exists_uncommented_append_blank (t : Text) {gap : Text} (hg : isBlank gap) :
    ∃ gap', isBlank gap' ∧ uncommented (t ++ gap) = uncommented t ++ gap' := by
  by_cases h : endsInComment t
  · by_cases hn : '\n' ∈ gap
    · obtain ⟨g, u, rfl, hg'⟩ := List.eq_append_cons_of_mem hn
      have hu := isBlank_uncommented (isBlank_cons_iff.1 (isBlank_append_iff.1 hg).2).2
      refine ⟨'\n' :: uncommented u, isBlank_cons_iff.2 ⟨rfl, hu⟩, ?_⟩
      rw [← List.append_assoc, uncommented_newline, uncommented_append_of_comment h hg']
    · exact ⟨[], rfl, by rw [uncommented_append_of_comment h hn, List.append_nil]⟩
  · exact ⟨gap, hg, uncommented_append_of_code (Bool.eq_false_iff.2 h) (notMem_of_isBlank hg rfl)⟩

/-! ## The code of a text -/

/-- What a text says without comments, and without blanks at its ends. -/
def codeOf (t : Text) : Text := trim (uncommented t)

theorem isBlank_uncommented_of_codeOf {t : Text} (h : codeOf t = []) : isBlank (uncommented t) := by
  obtain ⟨a, b, ht, ha, hb⟩ := trim_eq (uncommented t)
  rw [codeOf] at h
  rw [ht, h, List.append_nil]
  exact isBlank_append ha hb

theorem codeOf_of_isBlank {t : Text} (h : isBlank (uncommented t)) : codeOf t = [] := by
  refine trimEnd_eq_nil_of_isBlank (List.all_eq_true.2 fun c hc => ?_)
  exact List.all_eq_true.1 h c (mem_of_mem_trim hc)

/-- The last character of a text's code, and the blanks behind it. -/
theorem exists_codeOf_last {t : Text} (h : codeOf t ≠ []) :
    ∃ u c gap, isSpace c = false ∧ isBlank gap ∧ uncommented t = u ++ c :: gap ∧
      endsWith ',' (codeOf t) = (c == ',') := by
  have hsolid : isBlank (trimStart (uncommented t)) = false := by
    exact Bool.eq_false_iff.2 fun hb => h (trimEnd_eq_nil_of_isBlank (isBlank_trimEnd hb))
  obtain ⟨u, c, hu, hc⟩ := exists_trimEnd_last hsolid
  refine ⟨(uncommented t).takeWhile isSpace ++ u, c, trailing (trimStart (uncommented t)), hc,
    isBlank_trailing _, ?_, ?_⟩
  · have hcut : u ++ c :: trailing (trimStart (uncommented t)) = trimStart (uncommented t) := by
      conv => rhs; rw [← trimEnd_append_trailing (trimStart (uncommented t)), hu]
      simp
    rw [List.append_assoc, hcut, trimStart, List.takeWhile_append_dropWhile]
  · rw [codeOf, trim, hu, endsWith_concat]

/-- The blanks behind a text are no code. -/
theorem codeOf_trimEnd (t : Text) : codeOf (trimEnd t) = codeOf t := by
  obtain ⟨gap, hg, hu⟩ := exists_uncommented_append_blank (trimEnd t) (isBlank_trailing t)
  rw [trimEnd_append_trailing] at hu
  rw [codeOf, codeOf, hu, trim_append_gap _ hg]

/-! ## The last code of a text -/

theorem codeCut?_of_notMem {l : Text} (hl : '\n' ∉ l) :
    codeCut? l = if (trimEnd (codePart l)).isEmpty then none
      else some (trimEnd (codePart l), l.drop (trimEnd (codePart l)).length) := by
  cases l with
  | nil => rfl
  | cons c l =>
    rw [codeCut?, lineChunks_of_oneLine (List.cons_ne_nil c l) hl]
    simp [codeCutLines?]

theorem trimEnd_codePart_newline (l : Text) :
    trimEnd (codePart (l ++ ['\n'])) = trimEnd (codePart l) := by
  by_cases h : (commentCut? .code l).isSome
  · rw [codePart_append_of_some h]
  · rw [codePart_append_of_none (Option.not_isSome_iff_eq_none.1 h) (by decide), trimEnd, trimEnd]
    simp [isSpace]

/-- The last code of a text is behind its first line, or on it. -/
theorem codeCut?_line {l : Text} (hl : '\n' ∉ l) (t : Text) :
    codeCut? (l ++ '\n' :: t) =
      match codeCut? t with
      | some (front, rest) => some (l ++ '\n' :: front, rest)
      | none => (codeCut? l).map fun (code, rest) => (code, rest ++ '\n' :: t) := by
  rw [codeCut?, lineChunks_line hl, codeCutLines?, codeCut?, codeCut?_of_notMem hl]
  cases codeCutLines? (lineChunks t) with
  | some p => simp
  | none =>
    have hcode : trimEnd (codePart l) <+: codePart l := trimEnd_prefix _
    have hlen : (trimEnd (codePart l)).length ≤ l.length :=
      Nat.le_trans hcode.length_le (codePart_isPrefix l).length_le
    simp only [trimEnd_codePart_newline, flatten_lineChunks]
    split
    · rfl
    · rw [Option.map_some, List.drop_append_of_le_length hlen, List.append_assoc]
      rfl

theorem isBlank_codePart_of_codeCut? {l : Text} (hl : '\n' ∉ l) (h : codeCut? l = none) :
    isBlank (codePart l) := by
  rw [codeCut?_of_notMem hl] at h
  split at h
  · rename_i hempty
    rw [← trimEnd_append_trailing (codePart l), List.isEmpty_iff.1 hempty]
    exact isBlank_trailing _
  · cases h

/-- A text without code has but blanks and comments. -/
theorem isBlank_of_codeCut?_eq_none {t : Text} (h : codeCut? t = none) :
    isBlank (uncommented t) := by
  induction t using lines_induction with
  | last l hl =>
    rw [uncommented_of_notMem hl]
    exact isBlank_codePart_of_codeCut? hl h
  | line l t hl ih =>
    rw [codeCut?_line hl] at h
    split at h
    · cases h
    · rename_i hnone
      have hcode := isBlank_codePart_of_codeCut? hl (Option.map_eq_none_iff.1 h)
      rw [uncommented_line hl]
      exact isBlank_append hcode (isBlank_cons_iff.2 ⟨rfl, ih hnone⟩)

/-- Behind the last code of a line there are but blanks and its comment, and a comma goes in front of
them. -/
theorem exists_of_codeCut?_line {l : Text} (hl : '\n' ∉ l) {code rest : Text}
    (h : codeCut? l = some (code, rest)) :
    ∃ u c gap, isSpace c = false ∧ isBlank gap ∧ code = u ++ [c] ∧ '\n' ∉ code ++ ',' :: rest ∧
      codePart l = u ++ c :: gap ∧ codePart (code ++ ',' :: rest) = u ++ c :: ',' :: gap := by
  rw [codeCut?_of_notMem hl] at h
  split at h
  · cases h
  · rename_i hne
    obtain ⟨rfl, rfl⟩ := Prod.mk.inj (Option.some.inj h)
    obtain ⟨gap, comment, hline, hgap, hpart, hcomma⟩ := exists_codePart l
    have hblank : isBlank (codePart l) = false := by
      refine Bool.eq_false_iff.2 fun hb => hne (List.isEmpty_iff.2 ?_)
      exact trimEnd_eq_nil_of_isBlank (isBlank_trimEnd hb)
    obtain ⟨u, c, hu, hc⟩ := exists_trimEnd_last hblank
    have hdrop : l.drop (trimEnd (codePart l)).length = gap ++ comment := by
      have hcut := congrArg (List.drop (trimEnd (codePart l)).length) hline
      rwa [List.drop_left] at hcut
    rw [hdrop]
    refine ⟨u, c, gap, hc, hgap, hu, ?_, ?_, ?_⟩
    · rw [hline] at hl
      simpa using hl
    · rw [hpart, hu, List.append_assoc]
      rfl
    · rw [hcomma, hu, List.append_assoc]
      rfl

/-- Behind the last code of a text there are but blanks and comments, and a comma goes in front of
them. -/
theorem exists_of_codeCut? {t code rest : Text} (h : codeCut? t = some (code, rest)) :
    ∃ u c gap, isSpace c = false ∧ isBlank gap ∧ (∃ v, code = v ++ [c]) ∧
      uncommented t = u ++ c :: gap ∧ uncommented (code ++ ',' :: rest) = u ++ c :: ',' :: gap := by
  induction t using lines_induction generalizing code with
  | last l hl =>
    obtain ⟨u, c, gap, hc, hg, hcode, hn, hpart, hcomma⟩ := exists_of_codeCut?_line hl h
    rw [uncommented_of_notMem hl, uncommented_of_notMem hn]
    exact ⟨u, c, gap, hc, hg, ⟨u, hcode⟩, hpart, hcomma⟩
  | line l t hl ih =>
    rw [codeCut?_line hl] at h
    split at h
    · rename_i front back hfront
      obtain ⟨rfl, rfl⟩ := Prod.mk.inj (Option.some.inj h)
      obtain ⟨u, c, gap, hc, hg, ⟨v, rfl⟩, hrest, hcomma⟩ := ih hfront
      refine ⟨codePart l ++ '\n' :: u, c, gap, hc, hg, ⟨l ++ '\n' :: v, by simp⟩, ?_, ?_⟩
      · rw [uncommented_line hl, hrest]
        simp
      · rw [List.append_assoc, List.cons_append, uncommented_line hl, hcomma]
        simp
    · rename_i hnone
      obtain ⟨⟨word, back⟩, hword, hp⟩ := Option.map_eq_some_iff.1 h
      obtain ⟨rfl, rfl⟩ := Prod.mk.inj hp
      obtain ⟨u, c, gap, hc, hg, hcode, hn, hpart, hcomma⟩ :=
        exists_of_codeCut?_line hl hword
      have hrest := isBlank_of_codeCut?_eq_none hnone
      refine ⟨u, c, gap ++ '\n' :: uncommented t, hc, ?_, ⟨u, hcode⟩, ?_, ?_⟩
      · exact isBlank_append hg (isBlank_cons_iff.2 ⟨rfl, hrest⟩)
      · rw [uncommented_line hl, hpart, List.append_assoc]
        rfl
      · rw [← List.cons_append, ← List.append_assoc, uncommented_line hn, hcomma, List.append_assoc]
        rfl

/-- Where the last code of a text ends, a comma can go behind the text's code. -/
theorem exists_codeOf {t code rest : Text} (h : codeCut? t = some (code, rest)) :
    codeOf t ≠ [] ∧ endsWith ',' (codeOf t) = endsWith ',' code ∧
      ∃ lead gap, isBlank lead ∧ isBlank gap ∧
        uncommented (code ++ ',' :: rest) = lead ++ codeOf t ++ ',' :: gap := by
  obtain ⟨u, c, gap, hc, hg, ⟨v, rfl⟩, hu, hcomma⟩ := exists_of_codeCut? h
  have hne : codeOf t ≠ [] := by
    intro hnil
    have hblank := isBlank_uncommented_of_codeOf hnil
    rw [hu] at hblank
    exact notMem_of_isBlank hblank hc (by simp)
  obtain ⟨lead, hl, hlead⟩ : ∃ lead, isBlank lead ∧ u ++ [c] = lead ++ codeOf t := by
    refine ⟨(uncommented t).takeWhile isSpace, List.all_takeWhile, ?_⟩
    rw [codeOf, trim, ← trimEnd_append hne, trimStart, List.takeWhile_append_dropWhile, hu]
    have hcut : u ++ c :: gap = (u ++ [c]) ++ gap := by simp
    rw [hcut, trimEnd_append_blank ⟨u, c, rfl, hc⟩ hg]
  refine ⟨hne, ?_, lead, gap, hl, hg, ?_⟩
  · rw [← endsWith_append ',' lead hne, ← hlead, endsWith_concat, endsWith_concat]
  · rw [hcomma, ← hlead]
    simp

end Graft.Text
