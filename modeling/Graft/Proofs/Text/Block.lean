import Graft.Proofs.Text.Insert
import Graft.Proofs.Text.Trim

/-!
# What a re-indented snippet shows

* `contains_of_contains_indentBlock`: a word on one line of a re-indented snippet is one of the
  snippet;
* `lines_eq_concat`: the last line of a text, and the lines in front of it;
* `lineChunks_concat_newline`: a newline at the end of a text ends its last line;
* `exists_indentBlock`: a re-indented snippet ends with the last line of the snippet that is not
  blank.
-/

namespace Graft.Text

/-! ## Words of lines -/

theorem infix_of_mem_lines {line t : Text} (h : line ∈ lines t) : line <:+: t := by
  obtain ⟨chunk, hc, rfl⟩ := List.mem_map.1 h
  obtain ⟨ending, he, _⟩ := chomp_append chunk
  have hchunk : chunk <:+: t := by
    conv => rhs; rw [← flatten_lineChunks t]
    exact List.infix_of_mem_flatten hc
  refine List.IsInfix.trans ?_ hchunk
  exact List.IsPrefix.isInfix ⟨ending, he.symm⟩

theorem trimEnd_prefix (t : Text) : trimEnd t <+: t := ⟨trailing t, trimEnd_append_trailing t⟩

/-- A word that is in a join, and that the separators do not end within, is in a part. -/
theorem exists_of_contains_joinWith {w gap : Text} {c : Char} (hw : Firm w) (hc : c ∉ w)
    (hg : isBlank gap) {ts : List Text} (h : contains w (joinWith (c :: gap) ts)) :
    ∃ t ∈ ts, contains w t := by
  have hne : w ≠ [] := by
    obtain ⟨d, u, rfl, _⟩ := hw
    exact List.cons_ne_nil d u
  induction ts with
  | nil =>
    rw [contains_iff_isInfix] at h
    exact absurd (List.infix_nil.1 h) hne
  | cons t ts ih =>
    cases ts with
    | nil => exact ⟨t, List.mem_singleton.2 rfl, h⟩
    | cons u us =>
      have hcut : joinWith (c :: gap) (t :: u :: us) =
          t ++ [c] ++ (gap ++ joinWith (c :: gap) (u :: us)) := by
        simp [joinWith]
      rw [hcut, contains_separated_iff hc hne] at h
      rcases h with h | h
      · exact ⟨t, List.mem_cons_self, h⟩
      · rw [contains_iff_isInfix] at h
        obtain ⟨v, hv, hcontains⟩ :=
          ih (contains_iff_isInfix.2 (infix_of_blank_append hw hg h))
        exact ⟨v, List.mem_cons_of_mem t hv, hcontains⟩

/-- Moving a snippet under another indentation brings in no word on one line. -/
theorem contains_of_contains_indentBlock {w snippet indent : Text} (hw : Firm w) (hn : '\n' ∉ w)
    (hi : isBlank indent) (h : contains w (indentBlock snippet indent)) : contains w snippet := by
  have hnone : isBlank [] := rfl
  obtain ⟨_, hm, hin⟩ := exists_of_contains_joinWith hw hn hnone h
  obtain ⟨line, hline, rfl⟩ := List.mem_map.1 hm
  rw [contains_iff_isInfix] at *
  split at hin
  · obtain ⟨d, u, rfl, _⟩ := hw
    exact absurd (List.infix_nil.1 hin) (List.cons_ne_nil d u)
  · obtain ⟨cut, hcut, _⟩ := outdent_append (sharedWidth (blockLines snippet)) line
    have hout : outdent (sharedWidth (blockLines snippet)) line <:+ line := ⟨cut, hcut.symm⟩
    have hmem : line ∈ lines (trimEnd snippet) := List.dropWhile_sublist _ |>.subset hline
    have hkept : trimEnd snippet <+: snippet := trimEnd_prefix snippet
    exact (infix_of_blank_append hw hi hin).trans
      (hout.isInfix.trans ((infix_of_mem_lines hmem).trans hkept.isInfix))

/-! ## The last line -/

theorem lineChunks_ne_nil {t : Text} (h : t ≠ []) : lineChunks t ≠ [] := by
  intro hnil
  have hflat := flatten_lineChunks t
  rw [hnil] at hflat
  exact h hflat.symm

theorem lineChunks_append {a : Text} (ha : lastLine a = []) (b : Text) :
    lineChunks (a ++ b) = lineChunks a ++ lineChunks b := by
  rcases lastLine_eq_nil_iff.1 ha with rfl | ⟨a, rfl⟩
  · rfl
  · rw [List.append_assoc, List.singleton_append]
    clear ha
    induction a with
    | nil => simp [lineChunks]
    | cons c a ih =>
      simp only [List.cons_append, lineChunks]
      split
      · rw [ih]
        rfl
      · rw [ih]
        cases hc : lineChunks (a ++ ['\n']) with
        | nil => exact absurd hc (lineChunks_ne_nil (by simp))
        | cons line lines => rfl

theorem lineChunks_of_oneLine {l : Text} (hne : l ≠ []) (hl : '\n' ∉ l) : lineChunks l = [l] := by
  induction l with
  | nil => exact absurd rfl hne
  | cons c l ih =>
    obtain ⟨hc, hl⟩ := not_or.1 (mt List.mem_cons.2 hl)
    rw [lineChunks, if_neg (Ne.symm hc)]
    cases l with
    | nil => rfl
    | cons d l => rw [ih (List.cons_ne_nil d l) hl]

theorem lineChunks_line {l : Text} (hl : '\n' ∉ l) (t : Text) :
    lineChunks (l ++ '\n' :: t) = (l ++ ['\n']) :: lineChunks t := by
  induction l with
  | nil => rfl
  | cons c l ih =>
    obtain ⟨hc, hl⟩ := not_or.1 (mt List.mem_cons.2 hl)
    rw [List.cons_append, lineChunks, if_neg (Ne.symm hc), ih hl]
    rfl

theorem chomp_of_oneLine {l : Text} (hl : '\n' ∉ l) : chomp l = l := by
  have hrev : ∀ r, l.reverse ≠ '\n' :: r := fun r hr => hl (by
    rw [← List.mem_reverse, hr]
    exact List.mem_cons_self)
  unfold chomp
  split
  · rename_i hr
    exact absurd hr (hrev _)
  · rename_i hr
    exact absurd hr (hrev _)
  · rfl

/-- What ends a line is blank, and leaves a beginning that ends with no blank. -/
theorem prefix_chomp {u line : Text} {c : Char} (hc : isSpace c = false) (h : u ++ [c] <+: line) :
    u ++ [c] <+: chomp line := by
  obtain ⟨ending, hline, hblank⟩ := chomp_append line
  obtain ⟨v, hv⟩ := h
  have hcut : u ++ [c] ++ v = chomp line ++ ending := hv.trans hline
  rcases List.append_eq_append_iff.1 hcut with ⟨e, he, _⟩ | ⟨e, he, hend⟩
  · exact ⟨e, he.symm⟩
  · rcases List.eq_nil_or_concat e with rfl | ⟨e, d, rfl⟩
    · exact ⟨[], by simpa using he⟩
    · rw [List.concat_eq_append, ← List.append_assoc] at he
      obtain ⟨_, hd⟩ := List.append_inj' he rfl
      obtain rfl := List.singleton_inj.1 hd
      exact absurd (hend ▸ List.mem_append_left _ (by simp)) (notMem_of_isBlank hblank hc)

theorem isBlank_of_mem_chomp {chunks : List Text} (h : isBlank chunks.flatten) {line : Text}
    (hl : line ∈ chunks.map chomp) : isBlank line := by
  obtain ⟨chunk, hchunk, rfl⟩ := List.mem_map.1 hl
  obtain ⟨ending, he, _⟩ := chomp_append chunk
  refine List.all_eq_true.2 fun c hc => List.all_eq_true.1 h c (List.mem_flatten.2 ⟨chunk, hchunk, ?_⟩)
  rw [he]
  exact List.mem_append_left ending hc

theorem notMem_lastLine (t : Text) : '\n' ∉ lastLine t := by
  intro h
  rw [lastLine, List.mem_reverse] at h
  simpa using List.all_eq_true.1 List.all_takeWhile _ h

theorem lastLine_append_of_notMem {b : Text} (hb : '\n' ∉ b) (a : Text) :
    lastLine (a ++ b) = lastLine a ++ b := by
  have hall : ∀ c ∈ b.reverse, (c != '\n') = true := by
    intro c hc
    rw [bne_iff_ne]
    rintro rfl
    exact hb (List.mem_reverse.1 hc)
  rw [lastLine, lastLine, List.reverse_append, List.takeWhile_append_of_pos hall,
    List.reverse_append, List.reverse_reverse]

theorem lastLine_of_oneLine {l : Text} (h : '\n' ∉ l) : lastLine l = l :=
  lastLine_append_of_notMem h []

theorem lastLine_append_of_mem {b : Text} (hb : '\n' ∈ b) (a : Text) :
    lastLine (a ++ b) = lastLine b := by
  obtain ⟨u, v, rfl⟩ := List.append_of_mem hb
  have hcut : a ++ (u ++ '\n' :: v) = (a ++ u ++ ['\n']) ++ v := by simp
  have hcut' : u ++ '\n' :: v = (u ++ ['\n']) ++ v := by simp
  rw [hcut, hcut', lastLine_append (lastLine_eq_nil_iff.2 (.inr ⟨_, rfl⟩)),
    lastLine_append (lastLine_eq_nil_iff.2 (.inr ⟨_, rfl⟩))]

theorem lastLine_concat {u : Text} {c : Char} (hc : isSpace c = false) :
    lastLine (u ++ [c]) = lastLine u ++ [c] := by
  refine lastLine_append_of_notMem (fun h => ?_) u
  obtain rfl := List.mem_singleton.1 h
  cases hc

theorem beforeLastLine_of_oneLine {l : Text} (h : '\n' ∉ l) : beforeLastLine l = [] := by
  have hcut := beforeLastLine_append_lastLine l
  rw [lastLine_of_oneLine h] at hcut
  exact List.append_left_eq_self.1 hcut

/-- The line with a newline at its end. -/
def ended (line : Text) : Text := if endsWith '\n' line then line else line ++ ['\n']

/-- Every line of a text that ends with a newline does. -/
theorem endsWith_of_mem_lineChunks {t line : Text} (ht : lastLine t = [])
    (h : line ∈ lineChunks t) : endsWith '\n' line := by
  induction t generalizing line with
  | nil => cases h
  | cons c t ih =>
    obtain ⟨b, hb⟩ := (lastLine_eq_nil_iff.1 ht).resolve_left (List.cons_ne_nil c t)
    have htail : t = [] ∧ c = '\n' ∨ lastLine t = [] ∧ t ≠ [] := by
      cases b with
      | nil => exact .inl ⟨(List.cons.inj hb).2, (List.cons.inj hb).1⟩
      | cons d b =>
        have hcut : t = b ++ ['\n'] := (List.cons.inj hb).2
        exact .inr ⟨lastLine_eq_nil_iff.2 (.inr ⟨b, hcut⟩), by simp [hcut]⟩
    rcases htail with ⟨rfl, rfl⟩ | ⟨hlast, hne⟩
    · obtain rfl := List.mem_singleton.1 h
      rfl
    · rw [lineChunks] at h
      split at h
      · rename_i hc
        rcases List.mem_cons.1 h with rfl | h
        · rw [hc]
          rfl
        · exact ih hlast h
      · split at h
        · rename_i hnil
          exact absurd hnil (lineChunks_ne_nil hne)
        · rename_i first rest hcons
          rw [hcons] at ih
          rcases List.mem_cons.1 h with rfl | h
          · have hfirst := ih hlast List.mem_cons_self
            have hsome : first ≠ [] := by
              rintro rfl
              cases hfirst
            exact (endsWith_append '\n' [c] hsome).trans hfirst
          · exact ih hlast (List.mem_cons_of_mem first h)

theorem map_ended_lineChunks {t : Text} (h : lastLine t = []) :
    (lineChunks t).map ended = lineChunks t := by
  conv => rhs; rw [← List.map_id (lineChunks t)]
  exact List.map_congr_left fun _ hl => if_pos (endsWith_of_mem_lineChunks h hl)

/-- A newline at the end of a text ends its last line, if that lacks one, and no other. -/
theorem lineChunks_concat_newline {t : Text} (h : lastLine t ≠ []) :
    lineChunks (t ++ ['\n']) = (lineChunks t).map ended := by
  have hone := notMem_lastLine t
  have hstart := lastLine_beforeLastLine t
  have hended : ended (lastLine t) = lastLine t ++ ['\n'] :=
    if_neg fun he => hone (List.mem_of_getLast? (beq_iff_eq.1 he))
  conv => lhs; rw [← beforeLastLine_append_lastLine t, List.append_assoc,
    lineChunks_append hstart, lineChunks_line hone]
  conv => rhs; rw [← beforeLastLine_append_lastLine t, lineChunks_append hstart,
    lineChunks_of_oneLine h hone, List.map_append, map_ended_lineChunks hstart, List.map_singleton,
    hended]
  rfl

/-- The last line of a text, and the lines in front of it. -/
theorem lines_eq_concat {t : Text} (h : lastLine t ≠ []) :
    lines t = lines (beforeLastLine t) ++ [lastLine t] := by
  conv => lhs; rw [← beforeLastLine_append_lastLine t]
  rw [lines, lineChunks_append (lastLine_beforeLastLine t),
    lineChunks_of_oneLine h (notMem_lastLine t), List.map_append, List.map_singleton,
    chomp_of_oneLine (notMem_lastLine t)]
  rfl

theorem joinWith_append {sep : Text} {xs ys : List Text} (hx : xs ≠ []) (hy : ys ≠ []) :
    joinWith sep (xs ++ ys) = joinWith sep xs ++ sep ++ joinWith sep ys := by
  induction xs with
  | nil => exact absurd rfl hx
  | cons x xs ih =>
    cases xs with
    | nil =>
      obtain ⟨y, ys, rfl⟩ := List.exists_cons_of_ne_nil hy
      rfl
    | cons u us =>
      have ih := ih (List.cons_ne_nil u us)
      rw [List.cons_append] at ih
      rw [List.cons_append, List.cons_append, joinWith, ih, joinWith]
      simp only [List.append_assoc]

/-- A join ends with its last text, behind a separator or at the start. -/
theorem joinWith_concat (sep : Text) (ts : List Text) (t : Text) :
    ∃ p, joinWith sep (ts ++ [t]) = p ++ t ∧ (p = [] ∨ ∃ q, p = q ++ sep) := by
  induction ts with
  | nil => exact ⟨[], rfl, .inl rfl⟩
  | cons u us ih =>
    obtain ⟨p, hp, hq⟩ := ih
    have hjoin : joinWith sep (u :: us ++ [t]) = u ++ sep ++ joinWith sep (us ++ [t]) := by
      cases us with
      | nil => rfl
      | cons v vs => rfl
    refine ⟨u ++ sep ++ p, ?_, .inr ?_⟩
    · rw [hjoin, hp]
      simp only [List.append_assoc]
    · rcases hq with rfl | ⟨q, rfl⟩
      · exact ⟨u, List.append_nil _⟩
      · exact ⟨u ++ sep ++ q, by simp only [List.append_assoc]⟩

theorem not_isBlank_lastLine_trimEnd {t : Text} (h : isBlank t = false) :
    isBlank (lastLine (trimEnd t)) = false := by
  obtain ⟨u, c, ht, hc⟩ := exists_trimEnd_last h
  have hn : c ≠ '\n' := by
    rintro rfl
    cases hc
  have hmem : c ∈ lastLine (trimEnd t) := by
    rw [ht, lastLine]
    simp [hn]
  exact Bool.eq_false_iff.2 fun hb => notMem_of_isBlank hb hc hmem

/-- A re-indented snippet ends with the last line of the snippet that is not blank. -/
theorem exists_indentBlock {snippet : Text} (h : isBlank snippet = false) (indent : Text) :
    ∃ p cut line, indentBlock snippet indent = p ++ (indent ++ line) ∧ lastLine p = [] ∧
      lastLine (trimEnd snippet) = cut ++ line ∧ isBlank cut := by
  have hlast := not_isBlank_lastLine_trimEnd h
  have hne : lastLine (trimEnd snippet) ≠ [] := by
    intro hnil
    rw [hnil] at hlast
    cases hlast
  have hblock : blockLines snippet =
      (lines (beforeLastLine (trimEnd snippet))).dropWhile isBlank ++
        [lastLine (trimEnd snippet)] := by
    rw [blockLines, lines_eq_concat hne, List.dropWhile_append]
    split
    · rename_i hempty
      rw [List.isEmpty_iff.1 hempty]
      simp [hlast]
    · rfl
  have hindent : indentBlock snippet indent = joinWith ['\n'] ((blockLines snippet).map fun line =>
    if isBlank line then [] else indent ++ outdent (sharedWidth (blockLines snippet)) line) := rfl
  generalize sharedWidth (blockLines snippet) = width at hindent
  obtain ⟨cut, hcut, hblank⟩ := outdent_append width (lastLine (trimEnd snippet))
  rw [hblock, List.map_append, List.map_singleton, hlast, if_neg Bool.false_ne_true] at hindent
  obtain ⟨p, hp, hl⟩ := joinWith_concat ['\n']
    (((lines (beforeLastLine (trimEnd snippet))).dropWhile isBlank).map fun line =>
      if isBlank line then [] else indent ++ outdent width line)
    (indent ++ outdent width (lastLine (trimEnd snippet)))
  exact ⟨p, cut, _, hindent.trans hp, lastLine_eq_nil_iff.2 hl, hcut, hblank⟩

end Graft.Text
