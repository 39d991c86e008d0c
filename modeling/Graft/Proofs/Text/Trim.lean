import Graft.Proofs.Text.Solid

/-!
# What trimming a text keeps

* `prefix_trimEnd`: a beginning that ends with no blank is kept;
* `exists_trimEnd_last`: what is left ends with no blank;
* `trimEnd_append`: only the end of a text is trimmed.
-/

namespace Graft.Text

theorem isBlank_append_iff {a b : Text} : isBlank (a ++ b) ↔ isBlank a ∧ isBlank b := by
  rw [isBlank, List.all_append, Bool.and_eq_true]
  rfl

theorem isBlank_append {a b : Text} (ha : isBlank a) (hb : isBlank b) : isBlank (a ++ b) :=
  isBlank_append_iff.2 ⟨ha, hb⟩

theorem isBlank_cons_iff {c : Char} {t : Text} : isBlank (c :: t) ↔ isSpace c ∧ isBlank t := by
  rw [isBlank, List.all_cons, Bool.and_eq_true]
  rfl

theorem isBlank_trimEnd {t : Text} (h : isBlank t) : isBlank (trimEnd t) := by
  rw [← trimEnd_append_trailing t] at h
  exact (isBlank_append_iff.1 h).1

theorem prefix_trimEnd {p : Text} (hp : ∃ u c, p = u ++ [c] ∧ isSpace c = false) (q : Text) :
    p <+: trimEnd (p ++ q) := by
  obtain ⟨u, c, rfl, hc⟩ := hp
  have hkeep : ((u ++ [c]).reverse.dropWhile isSpace).reverse = u ++ [c] := by simp [hc]
  unfold trimEnd
  rw [List.reverse_append, List.dropWhile_append]
  split
  · exact ⟨[], by rw [List.append_nil, hkeep]⟩
  · rw [List.reverse_append, List.reverse_reverse]
    exact List.prefix_append _ _

theorem trimEnd_of_last {t : Text} (h : ∃ u c, t = u ++ [c] ∧ isSpace c = false) :
    trimEnd t = t := by
  obtain ⟨u, c, rfl, hc⟩ := h
  simp [trimEnd, hc]

theorem trimEnd_append_gap (t : Text) {gap : Text} (hg : isBlank gap) :
    trimEnd (t ++ gap) = trimEnd t := by
  have hrev : ∀ d ∈ gap.reverse, isSpace d = true := fun d hd =>
    List.all_eq_true.1 hg d (List.mem_reverse.1 hd)
  rw [trimEnd, List.reverse_append, List.dropWhile_append_of_pos hrev, trimEnd]

theorem trim_append_gap (t : Text) {gap : Text} (hg : isBlank gap) :
    trim (t ++ gap) = trim t := by
  rw [trim, trim, trimStart, trimStart, List.dropWhile_append]
  split
  · rename_i hempty
    have hgap : gap.dropWhile isSpace = [] := by
      rw [← List.append_nil gap, List.dropWhile_append_of_pos (List.all_eq_true.1 hg)]
      rfl
    rw [hgap, List.isEmpty_iff.1 hempty]
  · exact trimEnd_append_gap _ hg

theorem trimEnd_append_blank {t gap : Text} (h : ∃ u c, t = u ++ [c] ∧ isSpace c = false)
    (hg : isBlank gap) : trimEnd (t ++ gap) = t :=
  (trimEnd_append_gap t hg).trans (trimEnd_of_last h)

theorem exists_trimEnd_last {t : Text} (h : isBlank t = false) :
    ∃ u c, trimEnd t = u ++ [c] ∧ isSpace c = false := by
  unfold trimEnd
  cases hd : t.reverse.dropWhile isSpace with
  | nil =>
    have hall := List.takeWhile_append_dropWhile (p := isSpace) (l := t.reverse)
    rw [hd, List.append_nil] at hall
    have hblank : isBlank t.reverse := by
      rw [← hall]
      exact List.all_takeWhile
    rw [isBlank, List.all_reverse] at hblank
    rw [isBlank, hblank] at h
    cases h
  | cons c r =>
    have hc := List.head?_dropWhile_not isSpace t.reverse
    rw [hd] at hc
    exact ⟨r.reverse, c, by simp, by simpa using hc⟩

theorem endsWith_concat (c : Char) (u : Text) (d : Char) :
    endsWith c (u ++ [d]) = (d == c) := by
  rw [endsWith, List.getLast?_concat]
  rfl

theorem endsWith_append (c : Char) (a : Text) {b : Text} (hb : b ≠ []) :
    endsWith c (a ++ b) = endsWith c b := by
  rcases List.eq_nil_or_concat b with rfl | ⟨u, d, rfl⟩
  · exact absurd rfl hb
  · rw [List.concat_eq_append, ← List.append_assoc, endsWith_concat, endsWith_concat]

theorem trimEnd_append {p q : Text} (hq : trimEnd q ≠ []) : trimEnd (p ++ q) = p ++ trimEnd q := by
  unfold trimEnd at *
  have hne : q.reverse.dropWhile isSpace ≠ [] := by simpa using hq
  rw [List.reverse_append, List.dropWhile_append, if_neg (by simpa using hne), List.reverse_append,
    List.reverse_reverse]

end Graft.Text
