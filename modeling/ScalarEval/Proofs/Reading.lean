import Mathlib
import ScalarEval.Proofs.ExactWidth

/-! The integers of canonical words. Apart from the floating kinds, a kind stores integers, and its
words are those of signed or of unsigned integers of 64 bits. -/
namespace ScalarEval

theorem Value.ofBits_inj {v w : BitVec 64} : Value.ofBits v = Value.ofBits w ↔ v = w := by
  simp [ofBits]

/-- The word of an integer, read as unsigned: that of a negative integer is greater by `2 ^ 64`. -/
def unsignedWord (n : ℤ) : ℤ :=
  n + if n < 0 then 2 ^ 64 else 0

namespace Kind
variable {k : Kind} {w : BitVec 64}

theorem eq_extend_of_canonical (hk : k.isFloating = false) (hw : k.Canonical w) :
    w = k.extend w.toNat := by
  by_cases hi : k.isInteger = true
  · rw [← extendLow_eq_extend, hw.integer hi]
  · rcases k.eq_bool_or_ptr_iff.mpr ⟨hk, Bool.eq_false_of_not_eq_true hi⟩ with rfl | rfl
    · rcases hw.bool rfl with rfl | rfl <;> decide
    · apply BitVec.eq_of_toNat_eq
      have hlt := w.isLt
      simp only [extend, wrap, isSigned, width, BitVec.toNat_ofInt, Bool.false_eq_true, if_false]
      omega

theorem extendLow_of_canonical (hk : k.isFloating = false) (hw : k.Canonical w) :
    k.extendLow w = w := by
  rw [extendLow_eq_extend, ← eq_extend_of_canonical hk hw]

/-- The bounds of all kinds lie within those of signed and unsigned words. -/
theorem word_bounds (k : Kind) : -2 ^ 63 ≤ k.minValue ∧
    k.maxValue < if k.isSigned = true then 2 ^ 63 else 2 ^ 64 := by
  cases k <;> decide

theorem toNat_eq_read (hk : k.isFloating = false) (hw : k.Canonical w) :
    (w.toNat : ℤ) = unsignedWord ((Value.ofBits w).read k) := by
  unfold unsignedWord
  have hword : (w.toNat : ℤ) = (Value.ofBits w).read k % 2 ^ 64 := by
    conv_lhs => rw [eq_extend_of_canonical hk hw]
    exact toNat_ofInt_word _
  obtain ⟨hlow, hhigh⟩ := fits_iff.mp ((Value.ofBits w).fits_read k)
  obtain ⟨hmin, hmax⟩ := k.word_bounds
  split_ifs at hmax ⊢ <;> omega

theorem read_nonneg (hs : k.isSigned = false) (v : Value) : 0 ≤ v.read k := by
  have hlow := (fits_iff.mp (v.fits_read k)).1
  unfold minValue at hlow
  rwa [hs, if_neg Bool.false_ne_true] at hlow

theorem read_bounds_of_isSigned (hs : k.isSigned = true) (v : Value) :
    -2 ^ 63 ≤ v.read k ∧ v.read k < 2 ^ 63 := by
  obtain ⟨hlow, hhigh⟩ := fits_iff.mp (v.fits_read k)
  obtain ⟨hmin, hmax⟩ := k.word_bounds
  rw [if_pos hs] at hmax
  omega

theorem read_eq_toNat (hk : k.isFloating = false) (hs : k.isSigned = false) (hw : k.Canonical w) :
    (Value.ofBits w).read k = w.toNat := by
  rw [toNat_eq_read hk hw, unsignedWord, if_neg (not_lt.mpr (read_nonneg hs _)), add_zero]

theorem read_eq_toInt (hk : k.isFloating = false) (hs : k.isSigned = true) (hw : k.Canonical w) :
    (Value.ofBits w).read k = w.toInt := by
  obtain ⟨hlow, hhigh⟩ := read_bounds_of_isSigned hs (Value.ofBits w)
  have hword := toNat_eq_read hk hw
  rw [BitVec.toInt_eq_toNat_cond]
  unfold unsignedWord at hword
  split_ifs at hword ⊢ <;> omega

theorem isSigned_of_read_neg {v : Value} (h : v.read k < 0) : k.isSigned = true := by
  by_contra hs
  exact not_le.mpr h (read_nonneg (Bool.eq_false_of_not_eq_true hs) v)

end Kind

end ScalarEval
