import Graft.Text.Basic
import Mathlib.Data.List.Basic

/-!
# Places counted in bytes

A place of a text is the number of bytes, in UTF-8, in front of it.

* `exists_append_of_byteCount_le`: of two places of a text the one with fewer bytes in front of it
  comes first;
* `isValid_byteCount`: a place between two parts of a text is one at which a character begins;
* `forall_mem_octets`: a character beyond ASCII has no byte that is an ASCII character.
-/

namespace Graft.Text

/-! ## Places -/

theorem byteCount_cons (c : Char) (t : Text) : byteCount (c :: t) = c.utf8Size + byteCount t := rfl

theorem byteCount_append (a b : Text) : byteCount (a ++ b) = byteCount a + byteCount b := by
  induction a with
  | nil => exact (Nat.zero_add _).symm
  | cons c a ih => rw [List.cons_append, byteCount_cons, byteCount_cons, ih, Nat.add_assoc]

theorem byteCount_eq_zero_iff {t : Text} : byteCount t = 0 ↔ t = [] := by
  cases t with
  | nil => exact iff_of_true rfl rfl
  | cons c t =>
    have hc := c.utf8Size_pos
    rw [byteCount_cons]
    exact iff_of_false (by omega) (List.cons_ne_nil c t)

/-- Of two places of a text the one with fewer bytes in front of it comes first. -/
theorem exists_append_of_byteCount_le {a b c d : Text} (h : a ++ b = c ++ d)
    (hle : byteCount a ≤ byteCount c) : ∃ m, c = a ++ m ∧ b = m ++ d := by
  rcases List.append_eq_append_iff.1 h with ⟨m, hc, hb⟩ | ⟨m, ha, hd⟩
  · exact ⟨m, hc, hb⟩
  · rw [ha, byteCount_append] at hle
    obtain rfl : m = [] := byteCount_eq_zero_iff.1 (by omega)
    rw [List.append_nil] at ha
    exact ⟨[], by rw [ha, List.append_nil], hd.symm⟩

theorem utf8ByteSize_ofList (t : Text) : (String.ofList t).utf8ByteSize = byteCount t := by
  induction t with
  | nil => rfl
  | cons c t ih =>
    rw [← List.singleton_append, String.ofList_append, String.utf8ByteSize_append, ih,
      byteCount_append]
    simp [byteCount]

/-- A place between two parts of a text is one at which a character begins. -/
theorem isValid_byteCount (a b : Text) :
    String.Pos.Raw.IsValid (String.ofList (a ++ b)) ⟨byteCount a⟩ := by
  rw [String.Pos.Raw.isValid_iff_exists_append]
  refine ⟨String.ofList a, String.ofList b, String.ofList_append, ?_⟩
  rw [String.rawEndPos, utf8ByteSize_ofList]

/-! ## Bytes as characters -/

/-- The bytes of a character in UTF-8, each as the character with its number. -/
def octets (c : Char) : Text := (String.utf8EncodeChar c).map Char.ofUInt8

/-- The bytes of a text in UTF-8, each as the character with its number. -/
def byteText (t : Text) : Text := t.flatMap octets

theorem byteText_cons (c : Char) (t : Text) : byteText (c :: t) = octets c ++ byteText t := rfl

theorem length_octets (c : Char) : (octets c).length = c.utf8Size := by
  rw [octets, List.length_map, String.length_utf8EncodeChar]

theorem octets_ne_nil (c : Char) : octets c ≠ [] := by
  rw [← List.length_pos_iff, length_octets]
  exact c.utf8Size_pos

theorem toNat_ofUInt8 (b : UInt8) : (Char.ofUInt8 b).toNat = b.toNat := UInt8.toNat_toUInt32 b

theorem utf8Size_eq_one_iff_toNat {c : Char} : c.utf8Size = 1 ↔ c.toNat < 128 := by
  rw [Char.utf8Size_eq_one_iff, UInt32.le_iff_toNat_le]
  exact Nat.lt_succ_iff.symm

/-- A character of ASCII is its only byte. -/
theorem octets_of_lt {c : Char} (h : c.toNat < 128) : octets c = [c] := by
  rw [octets, String.utf8EncodeChar_eq_singleton (utf8Size_eq_one_iff_toNat.2 h),
    List.map_singleton]
  have hbyte : (Char.ofUInt8 c.val.toUInt8).toNat = c.toNat := by
    rw [toNat_ofUInt8, UInt32.toNat_toUInt8]
    exact Nat.mod_eq_of_lt (Nat.lt_trans h (by decide))
  rw [Char.toNat_inj.1 hbyte]

/-- The bytes of a character that has more than one carry a mark of at least 128. -/
theorem le_toNat_or (b : UInt8) {m : UInt8} (hm : 128 ≤ m.toNat) : 128 ≤ (b ||| m).toNat := by
  rw [UInt8.toNat_or]
  exact Nat.le_trans hm Nat.right_le_or

/-- A character beyond ASCII has no byte that is an ASCII character. -/
theorem forall_mem_octets {c : Char} (h : 128 ≤ c.toNat) : ∀ d ∈ octets c, 128 ≤ d.toNat := by
  have hbytes : ∀ b ∈ String.utf8EncodeChar c, 128 ≤ b.toNat := by
    have hlong : c.utf8Size ≠ 1 := fun hone => by
      rw [utf8Size_eq_one_iff_toNat] at hone
      omega
    have hpos := c.utf8Size_pos
    have hle := c.utf8Size_le_four
    obtain h2 | h3 | h4 : c.utf8Size = 2 ∨ c.utf8Size = 3 ∨ c.utf8Size = 4 := by omega
    · rw [String.utf8EncodeChar_eq_cons_cons h2]
      simp only [List.forall_mem_cons]
      exact ⟨le_toNat_or _ (by decide), le_toNat_or _ (by decide), nofun⟩
    · rw [String.utf8EncodeChar_eq_cons_cons_cons h3]
      simp only [List.forall_mem_cons]
      exact ⟨le_toNat_or _ (by decide), le_toNat_or _ (by decide), le_toNat_or _ (by decide), nofun⟩
    · rw [String.utf8EncodeChar_eq_cons_cons_cons_cons h4]
      simp only [List.forall_mem_cons]
      exact ⟨le_toNat_or _ (by decide), le_toNat_or _ (by decide), le_toNat_or _ (by decide),
        le_toNat_or _ (by decide), nofun⟩
  intro d hd
  obtain ⟨b, hb, rfl⟩ := List.mem_map.1 hd
  rw [toNat_ofUInt8]
  exact hbytes b hb

end Graft.Text
