import Graft.Proofs.Text.Solid
import Graft.Text.Pattern

/-!
# Identifiers

* `isSpace_eq_false_of_isIdentRest`, `isIdentRest_of_isIdentStart`: the characters of identifiers;
* `Identifier.solid`: an identifier is a solid word.
-/

namespace Graft.Text

/-- A text that reads as one identifier. -/
structure Identifier (w : Text) : Prop where
  ne_nil : w ≠ []
  rest : ∀ c ∈ w, isIdentRest c = true

theorem isWord_eq_false_of_isSpace {c : Char} (h : isSpace c = true) : isWord c = false := by
  have hc : c = Char.ofNat c.toNat := (Char.ofNat_toNat c).symm
  simp only [isSpace, Bool.or_eq_true, Bool.and_eq_true, decide_eq_true_eq, beq_iff_eq] at h
  have hall : ∀ n ∈ List.range' 0x9 5 ++ List.range' 0x2000 11 ++
      [0x20, 0x85, 0xA0, 0x1680, 0x2028, 0x2029, 0x202F, 0x205F, 0x3000],
      isWord (Char.ofNat n) = false := by decide +kernel
  rw [hc]
  apply hall
  simp only [List.mem_append, List.mem_range'_1, List.mem_cons, List.not_mem_nil, or_false]
  rcases h with (((((((((h | h) | h) | h) | h) | h) | h) | h) | h) | h) | h
  · exact .inl (.inl ⟨h.1, Nat.lt_succ_of_le h.2⟩)
  · simp [h]
  · simp [h]
  · simp [h]
  · simp [h]
  · exact .inl (.inr ⟨h.1, Nat.lt_succ_of_le h.2⟩)
  · simp [h]
  · simp [h]
  · simp [h]
  · simp [h]
  · simp [h]

theorem isSpace_eq_false_of_isIdentRest {c : Char} (h : isIdentRest c = true) :
    isSpace c = false := by
  cases hs : isSpace c with
  | false => rfl
  | true =>
    simp only [isIdentRest, isWord_eq_false_of_isSpace hs, Bool.false_or, beq_iff_eq] at h
    subst h
    exact absurd hs (by decide)

theorem isIdentRest_of_isIdentStart {c : Char} (h : isIdentStart c = true) :
    isIdentRest c = true := by
  simp only [isIdentStart, isIdentRest, Bool.or_eq_true, beq_iff_eq] at *
  rcases h with (h | rfl) | rfl
  · left
    have hn : c.toNat < 0x80 := by
      simp only [isLetter, Bool.or_eq_true, Bool.and_eq_true, decide_eq_true_eq, Char.le_def,
        UInt32.le_iff_toNat_le] at h
      have hz : 'z'.val.toNat = 122 := rfl
      have hZ : 'Z'.val.toNat = 90 := rfl
      change c.val.toNat < 128
      omega
    rw [isWord, if_pos hn, h]
    rfl
  · left; rfl
  · right; rfl

theorem Identifier.solid {w : Text} (h : Identifier w) : Solid w where
  first := by
    obtain ⟨c, u, rfl⟩ := List.exists_cons_of_ne_nil h.ne_nil
    exact ⟨c, u, rfl, isSpace_eq_false_of_isIdentRest (h.rest c (by simp))⟩
  last := by
    rcases List.eq_nil_or_concat w with rfl | ⟨u, c, rfl⟩
    · exact absurd rfl h.ne_nil
    · exact ⟨u, c, by simp, isSpace_eq_false_of_isIdentRest (h.rest c (by simp))⟩
  oneLine := fun hm => absurd (h.rest _ hm) (by decide)

end Graft.Text
