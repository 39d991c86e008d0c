import Graft.Proofs.Text.Bytes
import Graft.Proofs.Text.Occurrence
import Mathlib.Data.List.Forall2

/-!
# Words in order

Words are looked for one after the other, and each is taken where it comes first.  Nothing is missed
by that, since behind a first occurrence there is all that stands behind any other.

* `inOrder_cons_iff`: the first word may be taken at any of its occurrences;
* `inOrder_iff_exists_inOrderAt`: words are found in order where they have places in this order;
* `inOrder_replicate_iff`: one word is found as often as it is counted;
* `inOrder_exact`: the two together.
-/

namespace Graft.Text

variable {w t : Text} {ws : List Text} {ps : List Nat}

/-! ## The first occurrence leaves the most -/

/-- Behind the first occurrence of a word there is all that stands behind any other. -/
theorem exists_cut?_of_occurrence (a w b : Text) :
    ∃ front rest, cut? w (a ++ w ++ b) = some (front, rest) ∧ b <:+ rest := by
  have hin : contains w (a ++ w ++ b) := contains_iff.2 ⟨a, b, rfl⟩
  obtain ⟨⟨front, rest⟩, hcut⟩ := Option.isSome_iff_exists.1 hin
  refine ⟨front, rest, hcut, ?_⟩
  obtain ⟨tail, ht, hskip, hnone⟩ := leftmost_eq_some_iff.1 hcut
  obtain rfl := skip?_eq_some_iff.1 hskip
  rw [List.append_assoc] at ht
  rcases List.append_eq_append_iff.1 ht with ⟨m, rfl, hm⟩ | ⟨m, rfl, hm⟩
  · -- nothing is found in front of the first occurrence
    obtain rfl : m = [] := by
      by_contra hne
      have hmiss := hnone a m rfl hne
      rw [← hm, skip?_eq_some_iff.2 rfl] at hmiss
      cases hmiss
    obtain rfl : b = rest := by simpa using hm
    exact List.suffix_rfl
  · have hb : b <:+ w ++ rest := by
      rw [hm, ← List.append_assoc]
      exact List.suffix_append _ b
    have hlen := congrArg List.length hm
    simp only [List.length_append] at hlen
    exact List.suffix_of_suffix_length_le hb (List.suffix_append w rest) (by omega)

theorem inOrder_cons_iff_cut? :
    inOrder t (w :: ws) ↔ ∃ front rest, cut? w t = some (front, rest) ∧ inOrder rest ws := by
  rw [inOrder]
  cases h : cut? w t with
  | none => simp
  | some p => simp [Prod.ext_iff]

/-- What is found in order is still found when more stands in front. -/
theorem inOrder_append_left (h : inOrder t ws) (a : Text) : inOrder (a ++ t) ws := by
  induction ws generalizing t a with
  | nil => rfl
  | cons w ws ih =>
    obtain ⟨front, rest, hcut, hrest⟩ := inOrder_cons_iff_cut?.1 h
    obtain ⟨front', rest', hcut', z, rfl⟩ := exists_cut?_of_occurrence (a ++ front) w rest
    rw [cut?_eq_append hcut, ← List.append_assoc, ← List.append_assoc]
    exact inOrder_cons_iff_cut?.2 ⟨front', z ++ rest, hcut', ih hrest z⟩

/-- The first word may be taken at any of its occurrences. -/
theorem inOrder_cons_iff :
    inOrder t (w :: ws) ↔ ∃ a b, t = a ++ w ++ b ∧ inOrder b ws := by
  rw [inOrder_cons_iff_cut?]
  constructor
  · rintro ⟨front, rest, hcut, h⟩
    exact ⟨front, rest, cut?_eq_append hcut, h⟩
  · rintro ⟨a, b, rfl, h⟩
    obtain ⟨front, rest, hcut, z, rfl⟩ := exists_cut?_of_occurrence a w b
    exact ⟨front, z ++ b, hcut, inOrder_append_left h z⟩

/-! ## Places in order -/

/-- The word occurs in the text behind its first `p` bytes. -/
def OccursAt (t w : Text) (p : Nat) : Prop := ∃ a b, t = a ++ w ++ b ∧ byteCount a = p

/-- The words occur at these places of the text, each behind the ends of those before it. -/
structure InOrderAt (t : Text) (ws : List Text) (ps : List Nat) : Prop where
  occurs : List.Forall₂ (OccursAt t) ws ps
  apart : (ws.zip ps).Pairwise fun x y => x.2 + byteCount x.1 ≤ y.2

theorem occursAt_append_iff {a b : Text} {p : Nat} :
    OccursAt (a ++ b) w (byteCount a + p) ↔ OccursAt b w p := by
  constructor
  · rintro ⟨x, y, h, hx⟩
    rw [List.append_assoc] at h
    obtain ⟨m, rfl, rfl⟩ := exists_append_of_byteCount_le h (by omega)
    rw [byteCount_append] at hx
    exact ⟨m, y, (List.append_assoc m w y).symm, by omega⟩
  · rintro ⟨x, y, rfl, rfl⟩
    exact ⟨a ++ x, y, by simp only [List.append_assoc], byteCount_append a x⟩

/-- Places move along with what is put in front of the text. -/
theorem inOrderAt_append_iff {a b : Text} :
    InOrderAt (a ++ b) ws (ps.map (byteCount a + ·)) ↔ InOrderAt b ws ps := by
  have hoccurs : List.Forall₂ (OccursAt (a ++ b)) ws (ps.map (byteCount a + ·)) ↔
      List.Forall₂ (OccursAt b) ws ps := by
    rw [List.forall₂_map_right_iff]
    simp only [occursAt_append_iff]
  have hapart : ((ws.zip (ps.map (byteCount a + ·))).Pairwise
      fun x y => x.2 + byteCount x.1 ≤ y.2) ↔
      (ws.zip ps).Pairwise fun x y => x.2 + byteCount x.1 ≤ y.2 := by
    rw [List.zip_map_right, List.pairwise_map]
    simp only [Prod.map_fst, Prod.map_snd, id, Nat.add_assoc, Nat.add_le_add_iff_left]
  exact ⟨fun h => ⟨hoccurs.1 h.occurs, hapart.1 h.apart⟩,
    fun h => ⟨hoccurs.2 h.occurs, hapart.2 h.apart⟩⟩

/-- The places of the words behind the first are behind its end. -/
theorem inOrderAt_cons_iff {p : Nat} :
    InOrderAt t (w :: ws) (p :: ps) ↔
      OccursAt t w p ∧ InOrderAt t ws ps ∧ ∀ q ∈ ps, p + byteCount w ≤ q := by
  have hbehind (hlen : ws.length = ps.length) :
      (∀ x ∈ ws.zip ps, p + byteCount w ≤ x.2) ↔ ∀ q ∈ ps, p + byteCount w ≤ q := by
    conv => rhs; rw [← List.map_snd_zip (Nat.le_of_eq hlen.symm)]
    rw [List.forall_mem_map]
  constructor
  · rintro ⟨hoccurs, hapart⟩
    obtain ⟨hp, hps⟩ := List.forall₂_cons.1 hoccurs
    rw [List.zip_cons_cons, List.pairwise_cons] at hapart
    exact ⟨hp, ⟨hps, hapart.2⟩, (hbehind hps.length_eq).1 hapart.1⟩
  · rintro ⟨hp, ⟨hps, hapart⟩, hlater⟩
    refine ⟨.cons hp hps, ?_⟩
    rw [List.zip_cons_cons, List.pairwise_cons]
    exact ⟨(hbehind hps.length_eq).2 hlater, hapart⟩

theorem inOrder_iff_exists_inOrderAt : inOrder t ws ↔ ∃ ps, InOrderAt t ws ps := by
  induction ws generalizing t with
  | nil => exact iff_of_true rfl ⟨[], .nil, .nil⟩
  | cons w ws ih =>
    rw [inOrder_cons_iff]
    constructor
    · rintro ⟨a, b, rfl, h⟩
      obtain ⟨ps, hps⟩ := ih.1 h
      refine ⟨byteCount a :: ps.map (byteCount (a ++ w) + ·),
        inOrderAt_cons_iff.2 ⟨⟨a, b, rfl, rfl⟩, inOrderAt_append_iff.2 hps, ?_⟩⟩
      rw [List.forall_mem_map]
      intro q _
      rw [byteCount_append]
      exact Nat.le_add_right _ q
    · rintro ⟨ps, hps⟩
      cases ps with
      | nil => cases hps.occurs
      | cons p ps =>
        obtain ⟨⟨a, b, rfl, rfl⟩, hrest, hlater⟩ := inOrderAt_cons_iff.1 hps
        have hshift : (ps.map (· - byteCount (a ++ w))).map (byteCount (a ++ w) + ·) = ps := by
          rw [List.map_map]
          refine (List.map_congr_left fun q hq => ?_).trans (List.map_id ps)
          have hq := hlater q hq
          rw [← byteCount_append] at hq
          exact Nat.add_sub_cancel' hq
        rw [← hshift] at hrest
        exact ⟨a, b, rfl, ih.2 ⟨_, inOrderAt_append_iff.1 hrest⟩⟩

/-! ## Counting -/

/-- What belongs to an occurrence is passed over. -/
theorem countFrom_eq_drop (w : Text) (busy : Nat) (t : Text) :
    countFrom w busy t = countFrom w 0 (t.drop busy) := by
  induction t generalizing busy with
  | nil => simp [countFrom]
  | cons c t ih =>
    cases busy with
    | zero => rfl
    | succ busy => rw [countFrom, ih, List.drop_succ_cons]

/-- Occurrences are counted one after the other, from the first on. -/
theorem countFrom_eq_cut? (hw : w ≠ []) (t : Text) :
    countFrom w 0 t =
      match cut? w t with
      | some (_, rest) => countFrom w 0 rest + 1
      | none => 0 := by
  induction t with
  | nil =>
    obtain ⟨d, u, rfl⟩ := List.exists_cons_of_ne_nil hw
    rfl
  | cons c t ih =>
    rw [countFrom, cut?, leftmost, leftmost_const, startsWith]
    cases hs : skip? w (c :: t) with
    | some rest =>
      have ht : t.drop (w.length - 1) = rest := by
        obtain ⟨d, u, rfl⟩ := List.exists_cons_of_ne_nil hw
        obtain ⟨-, rfl⟩ := List.cons.inj (skip?_eq_some_iff.1 hs)
        exact List.drop_left
      simp [countFrom_eq_drop w (w.length - 1), ht]
    | none =>
      rw [cut?] at ih
      simp only [Option.isSome_none, Bool.false_eq_true, if_false, ih]
      cases leftmost (fun _ => skip? w) none t <;> rfl

/-- One word is found in order as often as it is counted. -/
theorem inOrder_replicate_iff (hw : w ≠ []) (t : Text) (k : Nat) :
    inOrder t (List.replicate k w) ↔ k ≤ count w t := by
  have hcount : count w t = countFrom w 0 t := by simp [count, hw]
  rw [hcount]
  clear hcount
  induction k generalizing t with
  | zero => exact iff_of_true rfl (Nat.zero_le _)
  | succ k ih =>
    rw [List.replicate_succ, inOrder, countFrom_eq_cut? hw]
    cases cut? w t with
    | none => simp
    | some p => exact (ih p.2).trans Nat.succ_le_succ_iff.symm

/-- **The search for words in order is exact.**  It succeeds exactly if the words have places in the
text that do not overlap and come in this order, and one word, not the empty one, can be found again
exactly as often as it is counted. -/
theorem inOrder_exact (t : Text) :
    (∀ ws, inOrder t ws ↔ ∃ ps, InOrderAt t ws ps) ∧
      ∀ w, w ≠ [] → ∀ k, inOrder t (List.replicate k w) ↔ k ≤ count w t :=
  ⟨fun _ => inOrder_iff_exists_inOrderAt, fun _ hw => inOrder_replicate_iff hw t⟩

/-- A word that overlaps itself and the empty word, in a text with a letter of two bytes. -/
theorem inOrder_exact_overlapping :
    let t := "aaaéaa".toList
    let w := "aa".toList
    w ≠ [] ∧ (∃ ps, InOrderAt t [w, [], w] ps) ∧ (¬ ∃ ps, InOrderAt t [w, "a".toList, w, w] ps) ∧
      inOrder t (List.replicate 2 w) ∧ ¬ inOrder t (List.replicate 3 w) := by
  intro t w
  obtain ⟨hplaces, hcount⟩ := inOrder_exact t
  have hw : w ≠ [] := by decide
  refine ⟨hw, (hplaces _).1 ?_, fun h => ?_, (hcount w hw 2).2 ?_, fun h => ?_⟩
  · decide
  · exact absurd ((hplaces _).2 h) (by decide)
  · decide
  · exact absurd ((hcount w hw 3).1 h) (by decide)

end Graft.Text
