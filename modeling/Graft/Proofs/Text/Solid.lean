import Graft.Proofs.Text.Occurrence
import Graft.Text.Indent

/-!
# Words that re-indenting keeps

A word is solid if it stays on one line and neither begins nor ends with a blank character.

* `Solid.contains_trim`: trimming a text keeps the solid words in it;
* `Solid.contains_indentBlock`: so does moving it under another indentation.
-/

namespace Graft.Text

/-- A word on one line whose ends are not blank. -/
structure Solid (w : Text) : Prop where
  first : Firm w
  last : ∃ u c, w = u ++ [c] ∧ isSpace c = false
  oneLine : '\n' ∉ w

theorem isSpace_of_isIndent {c : Char} (h : isIndent c = true) : isSpace c = true := by
  simp only [isIndent, Bool.or_eq_true, beq_iff_eq] at h
  rcases h with rfl | rfl <;> rfl

theorem isBlank_of_all_isIndent {t : Text} (h : t.all isIndent) : isBlank t :=
  List.all_eq_true.2 fun c hc => isSpace_of_isIndent (List.all_eq_true.1 h c hc)

theorem Solid.ne_nil {w : Text} (h : Solid w) : w ≠ [] := by
  obtain ⟨c, u, rfl, _⟩ := h.first
  simp

theorem not_isBlank_of_solid {w t : Text} (h : Solid w) (ht : w <:+: t) : isBlank t = false := by
  obtain ⟨c, u, rfl, hc⟩ := h.first
  rw [isBlank, List.all_eq_false]
  exact ⟨c, ht.subset (by simp), by simp [hc]⟩

/-- What lacks a word's last character holds no part of the word at the end of a text. -/
theorem infix_of_append_notMem {u a s : Text} {c : Char} (hc : c ∉ s) (hw : u ++ [c] <:+: a ++ s) :
    u ++ [c] <:+: a := by
  rcases List.infix_append_iff_ne_nil.1 hw with hw | hw | ⟨x, y, _, hy, hxy, _, hp⟩
  · exact hw
  · exact absurd (hw.subset (by simp)) hc
  · have hlast : y.getLast? = some c := by
      have := congrArg List.getLast? hxy
      rw [List.getLast?_concat, List.getLast?_append] at this
      cases hy' : y.getLast? with
      | none => exact absurd (List.getLast?_eq_none_iff.1 hy') hy
      | some d => simpa [hy'] using this.symm
    exact absurd (hp.subset (List.mem_of_getLast? hlast)) hc

/-- What lacks a word's first character holds no part of the word in front of a text. -/
theorem infix_of_notMem_append {u a s : Text} {c : Char} (hc : c ∉ s) (hw : c :: u <:+: s ++ a) :
    c :: u <:+: a := by
  rcases List.infix_append_iff_ne_nil.1 hw with hw | hw | ⟨x, y, hx, _, hxy, hsuf, _⟩
  · exact absurd (hw.subset (by simp)) hc
  · exact hw
  · cases x with
    | nil => exact absurd rfl hx
    | cons d x =>
      obtain ⟨rfl, _⟩ := List.cons.inj hxy
      exact absurd (hsuf.subset (by simp)) hc

/-- Blank characters at the end of a text hold no part of a word with a solid end. -/
theorem infix_of_append_blank {w a s : Text} (h : ∃ u c, w = u ++ [c] ∧ isSpace c = false)
    (hs : isBlank s) (hw : w <:+: a ++ s) : w <:+: a := by
  obtain ⟨u, c, rfl, hc⟩ := h
  exact infix_of_append_notMem (notMem_of_isBlank hs hc) hw

/-- Blank characters in front of a text hold no part of a word with a solid start. -/
theorem infix_of_blank_append {w a s : Text} (h : Firm w) (hs : isBlank s)
    (hw : w <:+: s ++ a) : w <:+: a := by
  obtain ⟨c, u, rfl, hc⟩ := h
  exact infix_of_notMem_append (notMem_of_isBlank hs hc) hw

theorem isBlank_trailing (t : Text) : isBlank (trailing t) := by
  simp only [isBlank, trailing, List.all_reverse, List.all_takeWhile]

theorem trimEnd_eq_nil_of_isBlank {t : Text} (h : isBlank (trimEnd t)) : trimEnd t = [] := by
  unfold trimEnd at h ⊢
  cases hd : t.reverse.dropWhile isSpace with
  | nil => rfl
  | cons c r =>
    have hc := List.head?_dropWhile_not isSpace t.reverse
    rw [hd] at hc h
    rw [isBlank, List.all_reverse, List.all_cons, Bool.and_eq_true] at h
    rw [List.head?_cons] at hc
    simp [hc] at h

theorem mem_of_mem_trim {t : Text} {c : Char} (h : c ∈ trim t) : c ∈ t := by
  obtain ⟨a, b, ht, _, _⟩ := trim_eq t
  rw [ht]
  exact List.mem_append_left b (List.mem_append_right a h)

theorem Solid.infix_trimEnd {w t : Text} (h : Solid w) (ht : w <:+: t) : w <:+: trimEnd t := by
  rw [← trimEnd_append_trailing t] at ht
  exact infix_of_append_blank h.last (isBlank_trailing t) ht

theorem Solid.contains_trim {w t : Text} (h : Solid w) (ht : contains w t) :
    contains w (trim t) := by
  rw [contains_iff_isInfix] at *
  refine h.infix_trimEnd (infix_of_blank_append h.first (s := t.takeWhile isSpace) ?_ ?_)
  · simp only [isBlank, List.all_takeWhile]
  · rwa [trimStart, List.takeWhile_append_dropWhile]

/-! ## Lines -/

theorem lineChunks_of_prefix {w t : Text} (hw : w ≠ []) (hn : '\n' ∉ w) (h : w <+: t) :
    ∃ line rest, lineChunks t = line :: rest ∧ w <+: line := by
  induction w generalizing t with
  | nil => exact absurd rfl hw
  | cons c w ih =>
    obtain ⟨t, rfl, ht⟩ : ∃ u, t = c :: u ∧ w <+: u := by
      cases t with
      | nil => simp at h
      | cons d t => obtain ⟨rfl, ht⟩ := List.cons_prefix_cons.1 h; exact ⟨t, rfl, ht⟩
    have hc : c ≠ '\n' := fun hc => hn (by simp [hc])
    simp only [lineChunks, hc, if_false]
    by_cases hw' : w = []
    · subst hw'
      cases lineChunks t with
      | nil => exact ⟨[c], [], rfl, by simp⟩
      | cons line rest => exact ⟨c :: line, rest, rfl, by simp⟩
    · obtain ⟨line, rest, hl, hp⟩ := ih hw' (fun hm => hn (by simp [hm])) ht
      exact ⟨c :: line, rest, by simp [hl], List.cons_prefix_cons.2 ⟨rfl, hp⟩⟩

/-- A word without a newline lies within one line. -/
theorem exists_lineChunk {w t : Text} (hw : w ≠ []) (hn : '\n' ∉ w) (h : w <:+: t) :
    ∃ line ∈ lineChunks t, w <:+: line := by
  induction t with
  | nil => exact absurd (List.infix_nil.1 h) hw
  | cons c t ih =>
    rcases List.infix_cons_iff.1 h with h | h
    · obtain ⟨line, rest, hl, hp⟩ := lineChunks_of_prefix hw hn h
      exact ⟨line, by simp [hl], hp.isInfix⟩
    · obtain ⟨line, hl, hin⟩ := ih h
      simp only [lineChunks]
      split
      · exact ⟨line, List.mem_cons_of_mem _ hl, hin⟩
      · cases hc : lineChunks t with
        | nil => simp [hc] at hl
        | cons first rest =>
          rw [hc] at hl
          rcases List.mem_cons.1 hl with rfl | hl
          · exact ⟨c :: line, by simp, hin.trans (List.suffix_cons c line).isInfix⟩
          · exact ⟨line, by simp [hl], hin⟩

/-- What ends a line is blank. -/
theorem chomp_append (line : Text) : ∃ ending, line = chomp line ++ ending ∧ isBlank ending := by
  unfold chomp
  split
  · rename_i r h
    exact ⟨['\r', '\n'], by simpa using congrArg List.reverse h, rfl⟩
  · rename_i r _ h
    exact ⟨['\n'], by simpa using congrArg List.reverse h, rfl⟩
  · exact ⟨[], by simp, rfl⟩

theorem Solid.exists_line {w t : Text} (h : Solid w) (ht : w <:+: t) :
    ∃ line ∈ lines t, w <:+: line := by
  obtain ⟨line, hl, hin⟩ := exists_lineChunk h.ne_nil h.oneLine ht
  obtain ⟨ending, he, hb⟩ := chomp_append line
  exact ⟨chomp line, List.mem_map_of_mem hl, infix_of_append_blank h.last hb (he ▸ hin)⟩

/-! ## Blocks -/

theorem mem_dropWhile_of_mem {α : Type} {p : α → Bool} {x : α} {xs : List α} (hx : x ∈ xs)
    (hp : p x = false) : x ∈ xs.dropWhile p := by
  rw [← List.takeWhile_append_dropWhile (p := p) (l := xs), List.mem_append] at hx
  rcases hx with hx | hx
  · simp [List.all_eq_true.1 List.all_takeWhile x hx] at hp
  · exact hx

theorem infix_joinWith {sep t : Text} {ts : List Text} (h : t ∈ ts) : t <:+: joinWith sep ts := by
  induction ts with
  | nil => simp at h
  | cons u us ih =>
    cases us with
    | nil => simp [List.mem_singleton.1 h, joinWith]
    | cons v us =>
      rw [joinWith]
      rcases List.mem_cons.1 h with rfl | h
      · exact ⟨[], sep ++ joinWith sep (v :: us), by simp⟩
      · exact (ih h).trans (List.suffix_append _ _).isInfix

theorem outdent_append (width : Nat) (line : Text) :
    ∃ cut, line = cut ++ outdent width line ∧ isBlank cut := by
  refine ⟨line.take (min width (indentWidth line)), by simp [outdent], ?_⟩
  have hp : line.take (min width (indentWidth line)) <+: indentOf line := by
    have : line.take (indentWidth line) = indentOf line :=
      (List.prefix_iff_eq_take.1 (List.takeWhile_prefix isIndent)).symm
    rw [← this]
    exact List.take_prefix_take_left (Nat.min_le_right _ _)
  refine isBlank_of_all_isIndent (List.all_eq_true.2 fun c hc => ?_)
  exact List.all_eq_true.1 List.all_takeWhile c (hp.subset hc)

/-- Moving a snippet under another indentation keeps the solid words in it. -/
theorem Solid.contains_indentBlock {w snippet : Text} (h : Solid w) (hs : contains w snippet)
    (indent : Text) : contains w (indentBlock snippet indent) := by
  rw [contains_iff_isInfix] at *
  obtain ⟨line, hl, hin⟩ := h.exists_line (h.infix_trimEnd hs)
  have hb : isBlank line = false := not_isBlank_of_solid h hin
  obtain ⟨cut, hcut, hblank⟩ := outdent_append (sharedWidth (blockLines snippet)) line
  have hout : w <:+: outdent (sharedWidth (blockLines snippet)) line :=
    infix_of_blank_append h.first hblank (hcut ▸ hin)
  have hmem : line ∈ blockLines snippet := mem_dropWhile_of_mem hl hb
  refine List.IsInfix.trans ?_ (infix_joinWith (List.mem_map_of_mem hmem))
  rw [if_neg (by simp [hb])]
  exact hout.trans (List.suffix_append indent _).isInfix

end Graft.Text
