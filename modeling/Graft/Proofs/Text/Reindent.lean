import Graft.Proofs.Text.Comment
import Mathlib.Data.List.TakeWhile

/-!
# What re-indenting a snippet keeps

A snippet is moved line by line, so what is said here is said about its lines: `blockLines` are
those from the first to the last that is not blank, the last one trimmed.

* `exists_blockLines_eq`: the block beside the lines of the snippet;
* `lines_joinWith`, `lines_indentBlock`: the lines of a block that was put together again;
* `min?_countedWidths`: the shared width is the least one among the lines that count;
* `indentBlock_reindented`: what the moved snippet shows of the snippet, and that an indentation
  that it was moved under before leaves no trace.
-/

namespace Graft.Text

/-! ## Lines -/

theorem chomp_concat_newline {l : Text} (h : '\r' ∉ l) : chomp (l ++ ['\n']) = l := by
  unfold chomp
  rw [List.reverse_append]
  split
  · rename_i r hr
    have hmem : '\r' ∈ l.reverse := by
      rw [show l.reverse = '\r' :: r from (List.cons.inj hr).2]
      exact List.mem_cons_self
    exact absurd (List.mem_reverse.1 hmem) h
  · rename_i r _ hr
    obtain ⟨-, hr⟩ := List.cons.inj hr
    rw [← List.reverse_reverse l]
    exact congrArg List.reverse hr.symm
  · rename_i hr
    exact absurd rfl (hr l.reverse)

theorem lines_of_oneLine {l : Text} (hne : l ≠ []) (hl : '\n' ∉ l) : lines l = [l] := by
  rw [lines, lineChunks_of_oneLine hne hl, List.map_singleton, chomp_of_oneLine hl]

theorem lines_line {l : Text} (hl : '\n' ∉ l) (hr : '\r' ∉ l) (t : Text) :
    lines (l ++ '\n' :: t) = l :: lines t := by
  rw [lines, lineChunks_line hl, List.map_cons, chomp_concat_newline hr, lines]

theorem lines_append {a : Text} (ha : lastLine a = []) (b : Text) :
    lines (a ++ b) = lines a ++ lines b := by
  rw [lines, lineChunks_append ha, List.map_append, lines, lines]

theorem notMem_of_mem_lines {t l : Text} (ht : '\r' ∉ t) (h : l ∈ lines t) : '\n' ∉ l := by
  induction t using lines_induction with
  | last u hu =>
    intro hl
    exact hu ((infix_of_mem_lines h).subset hl)
  | line u t hu ih =>
    rw [List.mem_append, List.mem_cons, not_or, not_or] at ht
    obtain ⟨hur, -, ht⟩ := ht
    rw [lines_line hu hur, List.mem_cons] at h
    rcases h with rfl | h
    · exact hu
    · exact ih ht h

/-- The lines of texts put one below the other, none of them empty at the end. -/
theorem lines_joinWith {ls : List Text} (hn : ∀ l ∈ ls, '\n' ∉ l ∧ '\r' ∉ l)
    (hlast : ls.getLast? ≠ some []) : lines (joinWith ['\n'] ls) = ls := by
  induction ls with
  | nil => rfl
  | cons l ls ih =>
    obtain ⟨hl, hr⟩ := hn l List.mem_cons_self
    cases ls with
    | nil =>
      have hne : l ≠ [] := by
        rintro rfl
        exact hlast rfl
      exact lines_of_oneLine hne hl
    | cons u us =>
      have hrest := ih (fun v hv => hn v (List.mem_cons_of_mem l hv)) hlast
      rw [joinWith, List.append_assoc, List.singleton_append, lines_line hl hr, hrest]

theorem isBlank_of_mem_lines {t l : Text} (ht : isBlank t) (h : l ∈ lines t) : isBlank l := by
  rw [← flatten_lineChunks t] at ht
  exact isBlank_of_mem_chomp ht h

/-- Blanks behind a line go on with it up to their first newline. -/
theorem exists_lines_append_blank {l gap : Text} (hne : l ≠ []) (hl : '\n' ∉ l)
    (hr : '\r' ∉ l ++ gap) (hg : isBlank gap) :
    ∃ g tail, lines (l ++ gap) = (l ++ g) :: tail ∧ isBlank g ∧ ∀ x ∈ tail, isBlank x := by
  by_cases hn : '\n' ∈ gap
  · obtain ⟨g, tail, rfl, hgn⟩ := List.eq_append_cons_of_mem hn
    obtain ⟨hb, ht⟩ := isBlank_append_iff.1 hg
    have hline : '\r' ∉ l ++ g := by
      intro hm
      rw [← List.append_assoc] at hr
      exact hr (List.mem_append_left _ hm)
    refine ⟨g, lines tail, ?_, hb, ?_⟩
    · rw [← List.append_assoc, lines_line (by simp [hl, hgn]) hline]
    · intro x hx
      exact isBlank_of_mem_lines (isBlank_cons_iff.1 ht).2 hx
  · refine ⟨gap, [], lines_of_oneLine (by simp [hne]) (by simp [hl, hn]), hg, ?_⟩
    intro x hx
    cases hx

/-! ## The block of a snippet -/

/-- The lines that are not blank. -/
def filled (ls : List Text) : List Text := ls.filter fun l => !isBlank l

/-- The lines of a text that are not blank. -/
def filledLines (t : Text) : List Text := filled (lines t)

/-- The lines of a text from the first to the last that is not blank. -/
def innerLines (t : Text) : List Text :=
  (((lines t).dropWhile isBlank).reverse.dropWhile isBlank).reverse

/-- The lines with the last one trimmed at its end. -/
def trimLast : List Text → List Text
  | [] => []
  | [l] => [trimEnd l]
  | l :: u :: us => l :: trimLast (u :: us)

theorem trimLast_concat (ls : List Text) (l : Text) : trimLast (ls ++ [l]) = ls ++ [trimEnd l] := by
  induction ls with
  | nil => rfl
  | cons u us ih =>
    cases us with
    | nil => rfl
    | cons v vs => exact congrArg (List.cons u) ih

theorem dropWhile_append_cons {α : Type} {p : α → Bool} {y : α} (hy : p y = false)
    (xs ys : List α) : (xs ++ y :: ys).dropWhile p = xs.dropWhile p ++ y :: ys := by
  rw [List.dropWhile_append]
  split
  · rename_i hempty
    rw [List.isEmpty_iff.1 hempty, List.dropWhile_cons_of_neg (by simp [hy])]
    rfl
  · rfl

theorem filled_append (xs ys : List Text) : filled (xs ++ ys) = filled xs ++ filled ys :=
  List.filter_append xs ys

theorem filled_eq_nil {ls : List Text} (h : ∀ l ∈ ls, isBlank l) : filled ls = [] := by
  refine List.filter_eq_nil_iff.2 fun l hl => ?_
  simp [h l hl]

theorem filled_cons_of_filled {l : Text} (h : isBlank l = false) (ls : List Text) :
    filled (l :: ls) = l :: filled ls :=
  List.filter_cons_of_pos (by simp [h])

theorem isBlank_of_mem_filled {ls : List Text} {l : Text} (h : l ∈ filled ls) :
    isBlank l = false := by
  simpa using (List.mem_filter.1 h).2

theorem filled_dropWhile (ls : List Text) : filled (ls.dropWhile isBlank) = filled ls := by
  have hblank : filled (ls.takeWhile isBlank) = [] :=
    filled_eq_nil fun l hl => List.all_eq_true.1 List.all_takeWhile l hl
  conv => rhs; rw [← List.takeWhile_append_dropWhile (p := isBlank) (l := ls), filled_append,
    hblank, List.nil_append]

theorem filled_innerLines (t : Text) : filled (innerLines t) = filledLines t := by
  rw [innerLines, filled, List.filter_reverse, ← filled, filled_dropWhile, filled,
    List.filter_reverse, List.reverse_reverse, ← filled, filled_dropWhile, filledLines]

/-- How the lines of a snippet end that is not blank: behind its last visible character there are
but blanks, on the same line and on those after it. -/
theorem exists_lines_eq {s : Text} (hs : '\r' ∉ s) (h : isBlank s = false) :
    ∃ front last gap tail, lines (trimEnd s) = front ++ [last] ∧
      lines s = front ++ (last ++ gap) :: tail ∧ (∃ u c, last = u ++ [c] ∧ isSpace c = false) ∧
      isBlank gap ∧ ∀ x ∈ tail, isBlank x := by
  obtain ⟨u, c, hlast, hc⟩ := exists_trimEnd_last h
  have hend : ∃ v, lastLine (trimEnd s) = v ++ [c] :=
    ⟨lastLine u, by rw [hlast, lastLine_concat hc]⟩
  have hne : lastLine (trimEnd s) ≠ [] := by
    obtain ⟨v, hv⟩ := hend
    rw [hv]
    simp
  have hcut : s = beforeLastLine (trimEnd s) ++ (lastLine (trimEnd s) ++ trailing s) := by
    rw [← List.append_assoc, beforeLastLine_append_lastLine, trimEnd_append_trailing]
  have hr : '\r' ∉ lastLine (trimEnd s) ++ trailing s := fun hm =>
    hs (hcut ▸ List.mem_append_right _ hm)
  obtain ⟨g, tail, hlines, hg, htail⟩ :=
    exists_lines_append_blank hne (notMem_lastLine _) hr (isBlank_trailing s)
  refine ⟨lines (beforeLastLine (trimEnd s)), lastLine (trimEnd s), g, tail, lines_eq_concat hne,
    ?_, ?_, hg, htail⟩
  · conv => lhs; rw [hcut, lines_append (lastLine_beforeLastLine _), hlines]
  · obtain ⟨v, hv⟩ := hend
    exact ⟨v, c, hv, hc⟩

theorem isBlank_append_of_last {last : Text} (h : ∃ u c, last = u ++ [c] ∧ isSpace c = false)
    (gap : Text) : isBlank (last ++ gap) = false := by
  obtain ⟨u, c, rfl, hc⟩ := h
  refine Bool.eq_false_iff.2 fun hb => ?_
  exact notMem_of_isBlank hb hc (by simp)

/-- The block of a snippet that is not blank, beside the lines of the snippet that it is made of. -/
theorem exists_blockLines_eq {s : Text} (hs : '\r' ∉ s) (h : isBlank s = false) :
    ∃ front last gap, blockLines s = front ++ [last] ∧ innerLines s = front ++ [last ++ gap] ∧
      (∃ u c, last = u ++ [c] ∧ isSpace c = false) ∧ isBlank gap := by
  obtain ⟨front, last, gap, tail, htrim, hlines, hlast, hgap, htail⟩ := exists_lines_eq hs h
  have hfilled := isBlank_append_of_last hlast
  have hblock := dropWhile_append_cons (List.append_nil last ▸ hfilled []) front []
  have hinner := dropWhile_append_cons (hfilled gap) front tail
  have htail' : tail.reverse.dropWhile isBlank = [] :=
    List.dropWhile_eq_nil_iff.2 fun x hx => htail x (List.mem_reverse.1 hx)
  refine ⟨front.dropWhile isBlank, last, gap, ?_, ?_, hlast, hgap⟩
  · rw [blockLines, htrim, hblock]
  · rw [innerLines, hlines, hinner, List.reverse_append, List.reverse_cons, List.append_assoc,
      List.singleton_append, dropWhile_append_cons (hfilled gap), htail']
    simp

theorem blockLines_of_isBlank {s : Text} (h : isBlank s) : blockLines s = [] := by
  rw [blockLines, trimEnd_eq_nil_of_isBlank (isBlank_trimEnd h)]
  rfl

theorem innerLines_of_isBlank {s : Text} (h : isBlank s) : innerLines s = [] := by
  have hnil : (lines s).dropWhile isBlank = [] :=
    List.dropWhile_eq_nil_iff.2 fun l hl => isBlank_of_mem_lines h hl
  rw [innerLines, hnil]
  rfl

/-! ## The width that the lines of a block share -/

/-- The widths that decide how far a block is moved to the left: those of its lines that are not
blank, but not that of an unindented first line in front of others. -/
def countedWidths : List Text → List Nat
  | [] => []
  | first :: rest =>
    if indentWidth first = 0 ∧ filled rest ≠ [] then (filled rest).map indentWidth
    else indentWidth first :: (filled rest).map indentWidth

/-- The shared width is the least of the widths that count. -/
theorem min?_countedWidths (first : Text) (rest : List Text) :
    (countedWidths (first :: rest)).min? = some (sharedWidth (first :: rest)) := by
  have hrest : (rest.filter fun line => !isBlank line) = filled rest := rfl
  rw [countedWidths, sharedWidth, hrest]
  cases hm : ((filled rest).map indentWidth).min? with
  | none =>
    have hnil : filled rest = [] := List.map_eq_nil_iff.1 (List.min?_eq_none_iff.1 hm)
    rw [hnil, if_neg fun h => h.2 rfl]
    rfl
  | some width =>
    have hne : filled rest ≠ [] := by
      intro hnil
      rw [hnil] at hm
      cases hm
    by_cases hfirst : indentWidth first = 0
    · rw [if_pos ⟨hfirst, hne⟩, hm]
      simp only [if_pos hfirst]
    · rw [if_neg fun h => hfirst h.1, List.min?_cons, hm]
      simp only [if_neg hfirst]
      exact congrArg some (Nat.min_comm _ _)

theorem mem_countedWidths {first l : Text} {rest : List Text} (hl : l ∈ filled rest) :
    indentWidth l ∈ countedWidths (first :: rest) := by
  rw [countedWidths]
  split
  · exact List.mem_map_of_mem hl
  · exact List.mem_cons_of_mem _ (List.mem_map_of_mem hl)

theorem first_mem_countedWidths {first : Text} (h : indentWidth first ≠ 0) (rest : List Text) :
    indentWidth first ∈ countedWidths (first :: rest) := by
  rw [countedWidths, if_neg fun hc => h hc.1]
  exact List.mem_cons_self

theorem exists_of_mem_countedWidths {first : Text} {rest : List Text} {w : Nat}
    (h : w ∈ countedWidths (first :: rest)) (hf : isBlank first = false) :
    ∃ l ∈ filled (first :: rest), indentWidth l = w := by
  rw [filled_cons_of_filled hf]
  rw [countedWidths] at h
  split at h
  · obtain ⟨l, hl, hw⟩ := List.mem_map.1 h
    exact ⟨l, List.mem_cons_of_mem first hl, hw⟩
  · rcases List.mem_cons.1 h with rfl | h
    · exact ⟨first, List.mem_cons_self, rfl⟩
    · obtain ⟨l, hl, hw⟩ := List.mem_map.1 h
      exact ⟨l, List.mem_cons_of_mem first hl, hw⟩

/-! ## Moving one line -/

/-- The line with `width` of its indentation taken off and `indent` put on. -/
def moveLine (width : Nat) (indent line : Text) : Text :=
  if isBlank line then [] else indent ++ outdent width line

/-- The line without the spaces and tabs it begins with. -/
def unindented (line : Text) : Text := line.dropWhile isIndent

theorem indentOf_append_unindented (line : Text) : indentOf line ++ unindented line = line :=
  List.takeWhile_append_dropWhile

theorem outdent_eq (width : Nat) (line : Text) :
    outdent width line = (indentOf line).drop width ++ unindented line := by
  have hle : min width (indentWidth line) ≤ (indentOf line).length := Nat.min_le_right _ _
  have hdrop :
      (indentOf line).drop (min width (indentWidth line)) = (indentOf line).drop width := by
    rcases Nat.le_total width (indentWidth line) with h | h
    · rw [Nat.min_eq_left h]
    · rw [Nat.min_eq_right h, List.drop_eq_nil_of_le h]
      exact List.drop_length
  calc outdent width line
      = (indentOf line ++ unindented line).drop (min width (indentWidth line)) := by
        rw [indentOf_append_unindented, outdent]
    _ = (indentOf line).drop width ++ unindented line := by
        rw [List.drop_append_of_le_length hle, hdrop]

theorem head?_unindented (line : Text) :
    ∀ c, (unindented line).head? = some c → isIndent c = false := by
  intro c hc
  have hhead := List.head?_dropWhile_not isIndent line
  rw [← unindented, hc] at hhead
  simpa using hhead

section Append

variable {a b : Text} (ha : a.all isIndent) (hb : ∀ c, b.head? = some c → isIndent c = false)

include ha hb

theorem indentOf_append : indentOf (a ++ b) = a := by
  rw [indentOf, List.takeWhile_append_of_pos (List.all_eq_true.1 ha)]
  cases b with
  | nil => exact List.append_nil a
  | cons c u => rw [List.takeWhile_cons_of_neg (by simp [hb c rfl]), List.append_nil]

theorem unindented_append : unindented (a ++ b) = b := by
  rw [unindented, List.dropWhile_append_of_pos (List.all_eq_true.1 ha)]
  cases b with
  | nil => rfl
  | cons c u => exact List.dropWhile_cons_of_neg (by simp [hb c rfl])

end Append

theorem all_isIndent_indentOf (line : Text) : (indentOf line).all isIndent :=
  List.all_takeWhile

/-- What stands in front of the code of a moved line. -/
theorem all_isIndent_moved {i : Text} (hi : i.all isIndent) (width : Nat) (line : Text) :
    (i ++ (indentOf line).drop width).all isIndent := by
  rw [List.all_append, hi, Bool.true_and]
  refine List.all_eq_true.2 fun c hc => ?_
  exact List.all_eq_true.1 (all_isIndent_indentOf line) c (List.mem_of_mem_drop hc)

theorem isBlank_unindented (line : Text) : isBlank (unindented line) = isBlank line := by
  have hindent := isBlank_of_all_isIndent (all_isIndent_indentOf line)
  rw [Bool.eq_iff_iff]
  conv => rhs; rw [← indentOf_append_unindented line, isBlank_append_iff, and_iff_right hindent]

theorem unindented_ne_nil {line : Text} (h : isBlank line = false) : unindented line ≠ [] := by
  intro hnil
  have hb := isBlank_unindented line
  rw [hnil, h] at hb
  cases hb

/-- What follows a line that is not blank changes nothing in front of its code. -/
theorem indentOf_append_gap {line : Text} (h : isBlank line = false) (gap : Text) :
    indentOf (line ++ gap) = indentOf line ∧ unindented (line ++ gap) = unindented line ++ gap := by
  have hcut : line ++ gap = indentOf line ++ (unindented line ++ gap) := by
    rw [← List.append_assoc, indentOf_append_unindented]
  have hhead : ∀ c, (unindented line ++ gap).head? = some c → isIndent c = false := by
    intro c hc
    obtain ⟨d, u, hu⟩ := List.exists_cons_of_ne_nil (unindented_ne_nil h)
    rw [hu] at hc
    exact head?_unindented line c (by rw [hu]; exact hc)
  rw [hcut, indentOf_append (all_isIndent_indentOf line) hhead,
    unindented_append (all_isIndent_indentOf line) hhead]
  exact ⟨rfl, rfl⟩

theorem exists_unindented_last {line : Text} (h : ∃ u c, line = u ++ [c] ∧ isSpace c = false) :
    ∃ u c, unindented line = u ++ [c] ∧ isSpace c = false := by
  have hfilled : isBlank line = false := List.append_nil line ▸ isBlank_append_of_last h []
  obtain ⟨u, c, hu, hc⟩ := h
  obtain ⟨v, d, hv⟩ := (List.eq_nil_or_concat _).resolve_left (unindented_ne_nil hfilled)
  rw [List.concat_eq_append] at hv
  have hcut : (indentOf line ++ v) ++ [d] = u ++ [c] := by
    rw [← hu, List.append_assoc, ← hv, indentOf_append_unindented]
  obtain ⟨-, hd⟩ := List.append_inj' hcut rfl
  exact ⟨v, d, hv, List.singleton_inj.1 hd ▸ hc⟩

section Line

variable {i : Text} (hi : i.all isIndent) (width : Nat) {line : Text}

theorem moveLine_of_isBlank (i : Text) (h : isBlank line) : moveLine width i line = [] := if_pos h

theorem moveLine_of_filled (i : Text) (h : isBlank line = false) :
    moveLine width i line = i ++ (indentOf line).drop width ++ unindented line := by
  rw [moveLine, if_neg (by simp [h]), outdent_eq, List.append_assoc]

include hi

theorem unindented_moveLine (h : isBlank line = false) :
    unindented (moveLine width i line) = unindented line := by
  rw [moveLine_of_filled width i h, unindented_append (all_isIndent_moved hi width line)
    (head?_unindented line)]

theorem indentOf_moveLine (h : isBlank line = false) :
    indentOf (moveLine width i line) = i ++ (indentOf line).drop width := by
  rw [moveLine_of_filled width i h, indentOf_append (all_isIndent_moved hi width line)
    (head?_unindented line)]

theorem indentWidth_moveLine (h : isBlank line = false) :
    indentWidth (moveLine width i line) = i.length + (indentWidth line - width) := by
  rw [indentWidth, indentOf_moveLine hi width h, List.length_append, List.length_drop, indentWidth]

theorem isBlank_moveLine : isBlank (moveLine width i line) = isBlank line := by
  cases h : isBlank line with
  | true =>
    rw [moveLine_of_isBlank width i h]
    rfl
  | false =>
    rw [← isBlank_unindented, unindented_moveLine hi width h, isBlank_unindented, h]

/-- An indentation that a line was moved under before leaves no trace. -/
theorem moveLine_moveLine (line j : Text) :
    moveLine i.length j (moveLine width i line) = moveLine width j line := by
  cases h : isBlank line with
  | true =>
    rw [moveLine_of_isBlank width i h, moveLine_of_isBlank width j h]
    rfl
  | false =>
    have hmoved : isBlank (moveLine width i line) = false := (isBlank_moveLine hi width).trans h
    rw [moveLine_of_filled i.length j hmoved, indentOf_moveLine hi width h,
      unindented_moveLine hi width h, List.drop_left, ← moveLine_of_filled width j h]

end Line

/-! ## Moving a snippet -/

theorem indentBlock_eq (s i : Text) : indentBlock s i =
    joinWith ['\n'] ((blockLines s).map (moveLine (sharedWidth (blockLines s)) i)) := rfl

theorem filled_map_moveLine {i : Text} (hi : i.all isIndent) (width : Nat) (ls : List Text) :
    filled (ls.map (moveLine width i)) = (filled ls).map (moveLine width i) := by
  rw [filled, List.filter_map]
  congr 1
  refine List.filter_congr fun l _ => ?_
  exact congrArg not (isBlank_moveLine hi width)

/-- Behind any move a width counts only where it counted before. -/
theorem countedWidths_eq_of_pos {first : Text} (h : indentWidth first ≠ 0)
    (hf : isBlank first = false) (rest : List Text) :
    countedWidths (first :: rest) = (filled (first :: rest)).map indentWidth := by
  rw [countedWidths, if_neg fun hc => h hc.1, filled_cons_of_filled hf]
  rfl

/-- Lines that were moved under an indentation share just that. -/
theorem sharedWidth_map_moveLine {i : Text} (hi : i.all isIndent) (hne : i ≠ []) {first : Text}
    (hf : isBlank first = false) (rest : List Text) :
    sharedWidth ((first :: rest).map (moveLine (sharedWidth (first :: rest)) i)) = i.length := by
  obtain ⟨hmem, hle⟩ := List.min?_eq_some_iff.1 (min?_countedWidths first rest)
  generalize sharedWidth (first :: rest) = width at hmem hle ⊢
  have hpos : 0 < i.length := List.length_pos_iff.2 hne
  have hmf : isBlank (moveLine width i first) = false := (isBlank_moveLine hi width).trans hf
  have hfirst : indentWidth (moveLine width i first) ≠ 0 := by
    rw [indentWidth_moveLine hi width hf]
    omega
  have hmin := min?_countedWidths (moveLine width i first) (rest.map (moveLine width i))
  rw [countedWidths_eq_of_pos hfirst hmf, ← List.map_cons, filled_map_moveLine hi] at hmin
  obtain ⟨l, hl, hw⟩ := exists_of_mem_countedWidths hmem hf
  refine Option.some.inj (hmin.symm.trans (List.min?_eq_some_iff.2 ⟨?_, ?_⟩))
  · refine List.mem_map.2 ⟨moveLine width i l, List.mem_map_of_mem hl, ?_⟩
    rw [indentWidth_moveLine hi width (isBlank_of_mem_filled hl), hw, Nat.sub_self, Nat.add_zero]
  · intro w hw
    obtain ⟨m, hm, rfl⟩ := List.mem_map.1 hw
    obtain ⟨l, hl, rfl⟩ := List.mem_map.1 hm
    rw [indentWidth_moveLine hi width (isBlank_of_mem_filled hl)]
    omega

section Snippet

variable {s i : Text} (hs : '\r' ∉ s) (hi : i.all isIndent)

theorem isBlank_eq_false_of_head? {first : Text} (h : (blockLines s).head? = some first) :
    isBlank first = false := by
  have hhead := List.head?_dropWhile_not isBlank (lines (trimEnd s))
  rw [← blockLines, h] at hhead
  simpa using hhead

include hs

theorem notMem_of_mem_blockLines {l : Text} (h : l ∈ blockLines s) : '\n' ∉ l ∧ '\r' ∉ l := by
  have hkept : trimEnd s <+: s := trimEnd_prefix s
  have hr : '\r' ∉ trimEnd s := fun hm => hs (hkept.subset hm)
  have hl : l ∈ lines (trimEnd s) := (List.dropWhile_sublist isBlank).subset h
  exact ⟨notMem_of_mem_lines hr hl, fun hm => hr ((infix_of_mem_lines hl).subset hm)⟩

/-- How a moved block ends: with the last visible character of the snippet. -/
theorem exists_map_moveLine_last (h : isBlank s = false) (width : Nat) (i : Text) :
    ∃ front last, (blockLines s).map (moveLine width i) = front ++ [last] ∧
      ∃ u c, last = u ++ [c] ∧ isSpace c = false := by
  obtain ⟨front, last, -, hblock, -, hlast, -⟩ := exists_blockLines_eq hs h
  have hfilled : isBlank last = false := List.append_nil last ▸ isBlank_append_of_last hlast []
  refine ⟨front.map (moveLine width i), moveLine width i last, ?_, ?_⟩
  · rw [hblock, List.map_append, List.map_singleton]
  · obtain ⟨v, c, hv, hc⟩ := exists_unindented_last hlast
    refine ⟨i ++ (indentOf last).drop width ++ v, c, ?_, hc⟩
    rw [moveLine_of_filled width i hfilled, hv, ← List.append_assoc]

include hi

theorem notMem_moveLine {l : Text} (h : l ∈ blockLines s) (width : Nat) :
    '\n' ∉ moveLine width i l ∧ '\r' ∉ moveLine width i l := by
  obtain ⟨hn, hr⟩ := notMem_of_mem_blockLines hs h
  have hmem : ∀ c ∈ moveLine width i l, isIndent c ∨ c ∈ l := by
    intro c hc
    rw [moveLine] at hc
    split at hc
    · cases hc
    · rcases List.mem_append.1 hc with hc | hc
      · exact .inl (List.all_eq_true.1 hi c hc)
      · exact .inr (List.mem_of_mem_drop hc)
  constructor
  · intro hc
    exact (hmem _ hc).elim (by decide) hn
  · intro hc
    exact (hmem _ hc).elim (by decide) hr

theorem lines_indentBlock : lines (indentBlock s i) =
    (blockLines s).map (moveLine (sharedWidth (blockLines s)) i) := by
  rw [indentBlock_eq]
  apply lines_joinWith
  · intro m hm
    obtain ⟨l, hl, rfl⟩ := List.mem_map.1 hm
    exact notMem_moveLine hs hi hl _
  · cases h : isBlank s with
    | true => simp [blockLines_of_isBlank h]
    | false =>
      obtain ⟨front, last, hmap, u, c, rfl, -⟩ :=
        exists_map_moveLine_last hs h (sharedWidth (blockLines s)) i
      simp [hmap]

/-- The block of a moved snippet is the moved block. -/
theorem blockLines_indentBlock : blockLines (indentBlock s i) =
    (blockLines s).map (moveLine (sharedWidth (blockLines s)) i) := by
  have htrim : trimEnd (indentBlock s i) = indentBlock s i := by
    cases h : isBlank s with
    | true =>
      rw [indentBlock_eq, blockLines_of_isBlank h]
      rfl
    | false =>
      obtain ⟨front, last, hmap, u, c, rfl, hc⟩ :=
        exists_map_moveLine_last hs h (sharedWidth (blockLines s)) i
      obtain ⟨p, hp, -⟩ := joinWith_concat ['\n'] front (u ++ [c])
      apply trimEnd_of_last
      exact ⟨p ++ u, c, by rw [indentBlock_eq, hmap, hp, List.append_assoc], hc⟩
  have hsame : isBlank ∘ moveLine (sharedWidth (blockLines s)) i = isBlank :=
    funext fun l => isBlank_moveLine hi _
  rw [blockLines, htrim, lines_indentBlock hs hi, List.dropWhile_map, hsame]
  congr 1
  cases hb : blockLines s with
  | nil => rfl
  | cons first rest =>
    have hf : isBlank first = false := isBlank_eq_false_of_head? (by rw [hb]; rfl)
    exact List.dropWhile_cons_of_neg (by simp [hf])

/-- A snippet that was moved before is moved as if it had not been. -/
theorem indentBlock_indentBlock (hne : i ≠ []) (j : Text) :
    indentBlock (indentBlock s i) j = indentBlock s j := by
  rw [indentBlock_eq _ j, blockLines_indentBlock hs hi, indentBlock_eq s j]
  congr 1
  cases hb : blockLines s with
  | nil => rfl
  | cons first rest =>
    have hf : isBlank first = false := isBlank_eq_false_of_head? (by rw [hb]; rfl)
    rw [sharedWidth_map_moveLine hi hne hf, List.map_map]
    exact List.map_congr_left fun l _ => moveLine_moveLine hi _ l j

end Snippet

/-! ## What a moved snippet shows -/

/-- The widths of the indentations of the lines that are not blank. -/
def widths (t : Text) : List Nat := (filledLines t).map indentWidth

/-- What a snippet `t` that was moved under the indentation `i` shows of what it was before. -/
structure Reindented (s i t : Text) : Prop where
  code : (filledLines t).map unindented = trimLast ((filledLines s).map unindented)
  blanks : (lines t).map isBlank = (innerLines s).map isBlank
  empty : ∀ l ∈ lines t, isBlank l → l = []
  indented : ∀ l ∈ filledLines t, i <+: l
  nesting : ∀ {j k a b a' b' : Nat}, 0 < j ∧ 0 < k ∨ (widths s)[0]? ≠ some 0 →
    (widths s)[j]? = some a → (widths s)[k]? = some b →
    (widths t)[j]? = some a' → (widths t)[k]? = some b' → (a' : Int) - b' = a - b

/-- The lines of the block are those of the snippet, but for what the last one ends with. -/
theorem filled_blockLines {s : Text} (hs : '\r' ∉ s) :
    (filled (blockLines s)).map unindented = trimLast ((filledLines s).map unindented) ∧
      (filled (blockLines s)).map indentWidth = widths s ∧
      (blockLines s).map isBlank = (innerLines s).map isBlank := by
  rw [widths, ← filled_innerLines]
  cases h : isBlank s with
  | true =>
    rw [blockLines_of_isBlank h, innerLines_of_isBlank h]
    exact ⟨rfl, rfl, rfl⟩
  | false =>
    obtain ⟨front, last, gap, hblock, hinner, hlast, hgap⟩ := exists_blockLines_eq hs h
    have hfilled : ∀ g, isBlank (last ++ g) = false := isBlank_append_of_last hlast
    have hl : isBlank last = false := List.append_nil last ▸ hfilled []
    have hone : ∀ {l : Text}, isBlank l = false → filled [l] = [l] := fun h =>
      filled_cons_of_filled h []
    obtain ⟨hindent, hcode⟩ := indentOf_append_gap hl gap
    have hend := exists_unindented_last hlast
    rw [hblock, hinner, filled_append, filled_append, hone hl, hone (hfilled gap)]
    simp only [List.map_append, List.map_singleton, trimLast_concat, hcode,
      trimEnd_append_blank hend hgap, indentWidth, hindent, hl, hfilled gap, and_self]

theorem sharedWidth_le {s : Text} (hs : '\r' ∉ s) {j a : Nat} (ha : (widths s)[j]? = some a)
    (hj : 0 < j ∨ (widths s)[0]? ≠ some 0) : sharedWidth (blockLines s) ≤ a := by
  rw [← (filled_blockLines hs).2.1] at ha hj
  cases hb : blockLines s with
  | nil => simp [hb, filled] at ha
  | cons first rest =>
    have hf : isBlank first = false := isBlank_eq_false_of_head? (by rw [hb]; rfl)
    obtain ⟨-, hle⟩ := List.min?_eq_some_iff.1 (min?_countedWidths first rest)
    apply hle
    rw [hb, filled_cons_of_filled hf, List.map_cons] at ha hj
    cases j with
    | zero =>
      obtain rfl := Option.some.inj ha
      refine first_mem_countedWidths (fun hzero => ?_) rest
      rcases hj with hj | hj
      · exact absurd hj (Nat.lt_irrefl 0)
      · exact hj (congrArg some hzero)
    | succ j =>
      obtain ⟨l, hl, rfl⟩ := List.mem_map.1 (List.mem_of_getElem? ha)
      exact mem_countedWidths hl

section Moved

variable {s i : Text} (hs : '\r' ∉ s) (hi : i.all isIndent)

include hs hi

theorem filledLines_indentBlock : filledLines (indentBlock s i) =
    (filled (blockLines s)).map (moveLine (sharedWidth (blockLines s)) i) := by
  rw [filledLines, lines_indentBlock hs hi, filled_map_moveLine hi]

/-- Every width is less by the one that the lines share, and more by the new indentation. -/
theorem widths_indentBlock : widths (indentBlock s i) =
    (widths s).map fun w => i.length + (w - sharedWidth (blockLines s)) := by
  obtain ⟨-, hwidths, -⟩ := filled_blockLines hs
  rw [widths, filledLines_indentBlock hs hi, ← hwidths, List.map_map, List.map_map]
  exact List.map_congr_left fun l hl => indentWidth_moveLine hi _ (isBlank_of_mem_filled hl)

end Moved

/-- Moving a snippet keeps its code, its blank lines and its nesting, and where it was moved before
makes no difference. -/
theorem indentBlock_reindented {s i : Text} (hs : '\r' ∉ s) (hi : i.all isIndent) :
    Reindented s i (indentBlock s i) ∧
      ∀ i', i' ≠ [] → i'.all isIndent → indentBlock (indentBlock s i') i = indentBlock s i := by
  obtain ⟨hcode, -, hblanks⟩ := filled_blockLines hs
  have hlines := lines_indentBlock hs hi
  have hfilled := filledLines_indentBlock hs hi
  have hmoved := widths_indentBlock hs hi
  refine ⟨⟨?code, ?blanks, ?empty, ?indented, ?nesting⟩, ?again⟩
  case code =>
    rw [hfilled, List.map_map, ← hcode]
    exact List.map_congr_left fun l hl => unindented_moveLine hi _ (isBlank_of_mem_filled hl)
  case blanks =>
    rw [hlines, List.map_map, ← hblanks]
    exact List.map_congr_left fun l _ => isBlank_moveLine hi _
  case empty =>
    intro m hm hb
    rw [hlines] at hm
    obtain ⟨l, -, rfl⟩ := List.mem_map.1 hm
    rw [isBlank_moveLine hi] at hb
    exact moveLine_of_isBlank _ i hb
  case indented =>
    intro m hm
    rw [hfilled] at hm
    obtain ⟨l, hl, rfl⟩ := List.mem_map.1 hm
    rw [moveLine_of_filled _ i (isBlank_of_mem_filled hl), List.append_assoc]
    exact List.prefix_append i _
  case nesting =>
    intro j k a b a' b' hjk ha hb ha' hb'
    have hla := sharedWidth_le hs ha (hjk.imp_left And.left)
    have hlb := sharedWidth_le hs hb (hjk.imp_left And.right)
    rw [hmoved, List.getElem?_map, ha, Option.map_some, Option.some.injEq] at ha'
    rw [hmoved, List.getElem?_map, hb, Option.map_some, Option.some.injEq] at hb'
    omega
  case again =>
    intro i' hne' hi'
    exact indentBlock_indentBlock hs hi' hne' i

theorem indentBlock_reindented_route :
    Reindented "<Route\n    path\n\n  />\n".toList "\t".toList
        "\t<Route\n\t  path\n\n\t/>".toList ∧
      indentBlock (indentBlock "<Route\n    path\n\n  />\n".toList "    ".toList) "\t".toList =
        "\t<Route\n\t  path\n\n\t/>".toList := by
  have hmoved : indentBlock "<Route\n    path\n\n  />\n".toList "\t".toList =
      "\t<Route\n\t  path\n\n\t/>".toList := by decide
  rw [← hmoved]
  obtain ⟨h, again⟩ :=
    indentBlock_reindented (s := "<Route\n    path\n\n  />\n".toList) (by decide)
      (show "\t".toList.all isIndent by decide)
  exact ⟨h, again "    ".toList (by decide) (by decide)⟩

end Graft.Text
