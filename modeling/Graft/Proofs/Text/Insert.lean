import Graft.Proofs.Text.Occurrence

/-!
# Inserting into a text

An insertion is clear of a word if it neither makes nor hides an occurrence of it.

* `insertAt_append`: inserting at a place given as a cut of the text;
* `clear_of_lines`: whole lines are clear of every word on one line that they do not show;
* `Clear.cut?_left`, `Clear.cut?_right`: the first occurrence stays, or moves with its text;
* `Clear.lastCut?_left`, `Clear.lastCut?_right`: so does the last one.
-/

namespace Graft.Text

/-- The text with a block inserted in front of its character number `n`. -/
def insertAt (n : Nat) (block t : Text) : Text := t.take n ++ block ++ t.drop n

theorem insertAt_append (a b block : Text) :
    insertAt a.length block (a ++ b) = a ++ block ++ b := by
  simp [insertAt]

theorem insertAt_nil (n : Nat) (t : Text) : insertAt n [] t = t := by
  simp [insertAt]

theorem Straddles.of_prefix {w a b b' : Text} (h : Straddles w a b) (hb : b <+: b') :
    Straddles w a b' := by
  obtain ⟨u, v, hu, hv, hw, ha, hp⟩ := h
  exact ⟨u, v, hu, hv, hw, ha, hp.trans hb⟩

/-! ## The last line -/

theorem lastLine_beforeLastLine (t : Text) : lastLine (beforeLastLine t) = [] := by
  rw [lastLine_eq_nil_iff, beforeLastLine]
  cases h : t.reverse.dropWhile (· != '\n') with
  | nil => exact .inl rfl
  | cons c r =>
    have hc : (c != '\n') = false := by
      have := List.head?_dropWhile_not (· != '\n') t.reverse
      rw [h] at this
      exact this
    obtain rfl : c = '\n' := by simpa using hc
    exact .inr ⟨r.reverse, by simp⟩

theorem lastLine_append {a : Text} (ha : lastLine a = []) (b : Text) :
    lastLine (a ++ b) = lastLine b := by
  rcases lastLine_eq_nil_iff.1 ha with rfl | ⟨a, rfl⟩
  · rfl
  · have hn : ('\n' :: a.reverse).takeWhile (· != '\n') = [] := by simp
    have hr : (a ++ ['\n'] ++ b).reverse = b.reverse ++ '\n' :: a.reverse := by simp
    rw [lastLine, lastLine, hr, List.takeWhile_append, hn, List.append_nil]
    split
    · rename_i hl
      rw [(List.takeWhile_prefix _).eq_of_length hl]
    · rfl

theorem beforeLastLine_append {a : Text} (ha : lastLine a = []) (b : Text) :
    beforeLastLine (a ++ b) = a ++ beforeLastLine b := by
  have h := beforeLastLine_append_lastLine (a ++ b)
  rw [lastLine_append ha] at h
  have hsame : beforeLastLine (a ++ b) ++ lastLine b = a ++ beforeLastLine b ++ lastLine b := by
    rw [h, List.append_assoc, beforeLastLine_append_lastLine]
  exact List.append_cancel_right hsame

/-! ## Insertions that are clear of a word -/

/-- Inserting `c` between `a` and `b` neither makes nor hides an occurrence of `w`. -/
structure Clear (w a c b : Text) : Prop where
  apart : ¬ Straddles w a b
  front : ¬ Straddles w a c
  behind : ¬ Straddles w (a ++ c) b
  absent : contains w c = false

/-- Whole lines are clear of a word on one line that they do not show. -/
theorem clear_of_lines {w a b c : Text} (hw : '\n' ∉ w) (hc : contains w c = false)
    (ha : lastLine a = [] ∨ b = [] ∧ ∃ u, c = '\n' :: u) (hac : lastLine (a ++ c) = []) :
    Clear w a c b where
  apart := by
    rcases ha with ha | ⟨rfl, _⟩
    · exact not_straddles_of_lineStart ha hw
    · exact not_straddles_nil w a
  front := by
    rcases ha with ha | ⟨_, u, rfl⟩
    · exact not_straddles_of_lineStart ha hw
    · exact not_straddles_of_notMem_right hw
  behind := not_straddles_of_lineStart hac hw
  absent := hc

namespace Clear

variable {w a b c front rest : Text}

theorem of_prefix (h : Clear w a c b) {b' : Text} (hb : b' <+: b) : Clear w a c b' :=
  ⟨fun hs => h.apart (hs.of_prefix hb), h.front, fun hs => h.behind (hs.of_prefix hb), h.absent⟩

theorem cut?_left (h : cut? w a = some (front, rest)) (c b : Text) :
    cut? w (a ++ c ++ b) = some (front, rest ++ c ++ b) :=
  cut?_append_of_some (cut?_append_of_some h c) b

theorem cut?_right (hc : Clear w a c b) (h : cut? w a = none) :
    cut? w (a ++ b) = (cut? w b).map (fun p => (a ++ p.1, p.2)) ∧
      cut? w (a ++ c ++ b) = (cut? w b).map (fun p => (a ++ c ++ p.1, p.2)) := by
  refine ⟨cut?_append_of_none h hc.apart, cut?_append_of_none ?_ hc.behind⟩
  rw [cut?_append_of_none h hc.front, contains_eq_false_iff.1 hc.absent, Option.map_none]

theorem lastCut?_right (h : lastCut? w b = some (front, rest)) (a c : Text) :
    lastCut? w (a ++ c ++ b) = some (a ++ c ++ front, rest) :=
  lastCut?_append_of_some h (a ++ c)

theorem lastCut?_left (hc : Clear w a c b) (h : lastCut? w b = none) :
    lastCut? w (a ++ b) = (lastCut? w a).map (fun p => (p.1, p.2 ++ b)) ∧
      lastCut? w (a ++ c ++ b) = (lastCut? w a).map (fun p => (p.1, p.2 ++ c ++ b)) := by
  refine ⟨lastCut?_append_of_none h hc.apart, ?_⟩
  rw [lastCut?_append_of_none h hc.behind,
    lastCut?_append_of_none (lastCut?_eq_none_iff.2 hc.absent) hc.front]
  cases lastCut? w a <;> rfl

end Clear

end Graft.Text
