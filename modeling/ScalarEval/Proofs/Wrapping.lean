import Mathlib
import ScalarEval.Evaluate.Integer

/-! Wrapping is reduction modulo `2 ^ width` to the bounds of a kind. Words store a wrapped
integer so that reading it back, at the kind, is the same reduction. -/
namespace ScalarEval

theorem toNat_ofInt_word (n : ℤ) : ((BitVec.ofInt 64 n).toNat : ℤ) = n % 2 ^ 64 := by
  rw [BitVec.toNat_ofInt, Int.toNat_of_nonneg (Int.emod_nonneg _ (by norm_num))]
  norm_num

namespace Kind

theorem width_pos (k : Kind) : 0 < k.width := by
  cases k <;> decide

theorem width_le (k : Kind) : k.width ≤ 64 := by
  cases k <;> decide

theorem eq_bool_or_ptr_iff (k : Kind) :
    (k = .bool ∨ k = .ptr) ↔ k.isFloating = false ∧ k.isInteger = false := by
  cases k <;> decide

theorem isFloating_eq_false {k : Kind} (h : k.isInteger = true) : k.isFloating = false := by
  revert h
  cases k <;> decide

theorem modulus_pos (k : Kind) : (0 : ℤ) < 2 ^ k.width := by positivity

theorem modulus_dvd (k : Kind) : (2 : ℤ) ^ k.width ∣ 2 ^ 64 :=
  pow_dvd_pow 2 k.width_le

theorem wrap_modEq (k : Kind) (n : ℤ) : k.wrap n ≡ n [ZMOD 2 ^ k.width] := by
  unfold wrap
  split
  · have h := Int.bmod_emod (x := n) (m := 2 ^ k.width)
    push_cast at h
    exact h
  · push_cast
    exact Int.mod_modEq n _

theorem wrap_congr {k : Kind} {a b : ℤ} (h : a ≡ b [ZMOD 2 ^ k.width]) :
    k.wrap a = k.wrap b := by
  have h' : a % ((2 ^ k.width : ℕ) : ℤ) = b % ((2 ^ k.width : ℕ) : ℤ) := by
    push_cast
    exact h
  unfold wrap
  split
  · rw [← Int.emod_bmod (x := a), ← Int.emod_bmod (x := b)]
    exact congrArg (Int.bmod · _) h'
  · exact h'

theorem wrap_eq_wrap_iff {k : Kind} {a b : ℤ} :
    k.wrap a = k.wrap b ↔ a ≡ b [ZMOD 2 ^ k.width] := by
  refine ⟨fun h => ?_, wrap_congr⟩
  exact (k.wrap_modEq a).symm.trans (h ▸ k.wrap_modEq b)

@[simp] theorem wrap_wrap (k : Kind) (n : ℤ) : k.wrap (k.wrap n) = k.wrap n :=
  wrap_congr (k.wrap_modEq n)

/-- The bounds of a kind enclose exactly `2 ^ width` integers. -/
theorem maxValue_sub_minValue (k : Kind) : k.maxValue - k.minValue = 2 ^ k.width - 1 := by
  cases k <;> rfl

theorem fits_iff {k : Kind} {n : ℤ} : k.fits n = true ↔ k.minValue ≤ n ∧ n ≤ k.maxValue := by
  simp [fits]

theorem fits_wrap (k : Kind) (n : ℤ) : k.fits (k.wrap n) = true := by
  rw [fits_iff]
  have hlo := Int.le_bmod (x := n) (m := 2 ^ k.width) (by positivity)
  have hhi := Int.bmod_lt (x := n) (m := 2 ^ k.width) (by positivity)
  have hlo' := Int.emod_nonneg n k.modulus_pos.ne'
  have hhi' := Int.emod_lt_of_pos n k.modulus_pos
  unfold wrap
  -- Bounds and modulus are numerals once the kind is known.
  cases k <;> simp [width, isSigned, minValue, maxValue] at hlo hhi hlo' hhi' ⊢ <;> omega

/-- Integers that fit a kind are told apart modulo `2 ^ width`. -/
theorem eq_of_fits_of_modEq {k : Kind} {a b : ℤ} (ha : k.fits a = true) (hb : k.fits b = true)
    (h : a ≡ b [ZMOD 2 ^ k.width]) : a = b := by
  rw [fits_iff] at ha hb
  have hs := k.maxValue_sub_minValue
  obtain ⟨c, hc⟩ := h.dvd
  have hm := k.modulus_pos
  have hc0 : c = 0 := by
    by_contra hne
    rcases lt_or_gt_of_ne hne with hneg | hpos
    · nlinarith
    · nlinarith
  rw [hc0, mul_zero] at hc
  omega

theorem wrap_eq_of_fits {k : Kind} {n : ℤ} (h : k.fits n = true) : k.wrap n = n :=
  eq_of_fits_of_modEq (k.fits_wrap n) h (k.wrap_modEq n)

theorem wrap_eq_zero_iff {k : Kind} {n : ℤ} : k.wrap n = 0 ↔ (2 : ℤ) ^ k.width ∣ n := by
  have h0 : k.wrap 0 = 0 := by cases k <;> decide
  rw [← h0, wrap_eq_wrap_iff, Int.modEq_zero_iff_dvd]

theorem extend_modEq (k : Kind) (n : ℤ) : ((k.extend n).toNat : ℤ) ≡ n [ZMOD 2 ^ k.width] := by
  have hn : ((k.extend n).toNat : ℤ) = k.wrap n % 2 ^ 64 := toNat_ofInt_word _
  have hd : ((k.extend n).toNat : ℤ) ≡ k.wrap n [ZMOD 2 ^ k.width] := by
    rw [hn]
    exact (Int.mod_modEq _ _).of_dvd k.modulus_dvd
  exact hd.trans (k.wrap_modEq n)

@[simp] theorem wrap_extend (k : Kind) (n : ℤ) : k.wrap (k.extend n).toNat = k.wrap n :=
  wrap_congr (k.extend_modEq n)

@[simp] theorem extend_wrap (k : Kind) (n : ℤ) : k.extend (k.wrap n) = k.extend n :=
  congrArg (BitVec.ofInt 64) (k.wrap_wrap n)

@[simp] theorem extend_extend (k : Kind) (n : ℤ) : k.extend (k.extend n).toNat = k.extend n :=
  congrArg (BitVec.ofInt 64) (k.wrap_extend n)

theorem extend_eq_extend_iff {k : Kind} {a b : ℤ} :
    k.extend a = k.extend b ↔ k.wrap a = k.wrap b := by
  refine ⟨fun h => ?_, congrArg (BitVec.ofInt 64)⟩
  rw [← k.wrap_extend a, ← k.wrap_extend b, h]

end Kind

namespace Value

theorem read_modEq (v : Value) (k : Kind) : v.read k ≡ v.bits.toNat [ZMOD 2 ^ k.width] :=
  k.wrap_modEq _

@[simp] theorem read_ofInt (n : ℤ) (k : Kind) : (Value.ofInt n k).read k = k.wrap n :=
  k.wrap_extend n

theorem ofInt_eq_ofInt_iff {k : Kind} {a b : ℤ} :
    ofInt a k = ofInt b k ↔ k.wrap a = k.wrap b := by
  rw [← Kind.extend_eq_extend_iff]
  simp [ofInt, ofBits]

@[simp] theorem wrap_read (v : Value) (k : Kind) : k.wrap (v.read k) = v.read k :=
  k.wrap_wrap _

end Value
end ScalarEval
