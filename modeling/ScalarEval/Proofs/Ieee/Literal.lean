import Mathlib
import ScalarEval.Ieee.Literal
import ScalarEval.Proofs.Ieee.Rounding

/-! The numbers that literals denote. Literals of one number are rounded alike, whatever their
digits and exponents, and exponents that decide early decide as rounding would. -/
namespace ScalarEval.Ieee

/-- The number that digits denote under an exponent of ten. -/
def scaled (digits : ℕ) (exponent : ℤ) : ℚ :=
  digits * 10 ^ exponent

theorem scaled_mul_pow (n j : ℕ) (e : ℤ) : scaled (n * 10 ^ j) e = scaled n (e + j) := by
  unfold scaled
  rw [zpow_add₀ (by norm_num), zpow_natCast]
  push_cast
  ring

namespace Literal

/-- Literals of the same number under the same sign. A NaN is no number. -/
inductive Agree : Literal → Literal → Prop
  | infinite (negative : Bool) : Agree (.infinite negative) (.infinite negative)
  | decimal (negative : Bool) {n n' : ℕ} {e e' : ℤ} (h : scaled n e = scaled n' e') :
    Agree (.decimal negative n e) (.decimal negative n' e')

variable {F : Format} {n num den : ℕ}

theorem nearest_decimal_ofNat (F : Format) (negative : Bool) (e : ℕ) (hden : 0 < den)
    (h : num = n * 10 ^ e * den) :
    (decimal negative n (.ofNat e)).nearest F = F.ofRatio negative num den := by
  unfold nearest
  dsimp only
  split_ifs with hzero hlarge
  · refine congrArg (F.pattern negative) (Format.nearest_eq_zero ?_).symm
    simp [h, hzero, hden]
  · refine congrArg (F.pattern negative) (Format.nearest_eq_infinity hden ?_).symm
    rw [h]
    apply Nat.mul_le_mul_right
    calc
      2 ^ 2 ^ (F.exponentBits - 1) ≤ 2 ^ e := Nat.pow_le_pow_right (by norm_num) hlarge
      _ ≤ 10 ^ e := Nat.pow_le_pow_left (by norm_num) e
      _ ≤ n * 10 ^ e := Nat.le_mul_of_pos_left _ (Nat.pos_of_ne_zero hzero)
  · refine congrArg (F.pattern negative) (F.nearest_congr Nat.one_pos hden ?_)
    rw [h, mul_one]

theorem nearest_decimal_negSucc (F : Format) (negative : Bool) (k : ℕ) (hden : 0 < den)
    (h : num * 10 ^ (k + 1) = n * den) :
    (decimal negative n (.negSucc k)).nearest F = F.ofRatio negative num den := by
  have hpow : 0 < 10 ^ (k + 1) := by positivity
  unfold nearest
  dsimp only
  split_ifs with hsmall
  · refine congrArg (F.pattern negative) (Format.nearest_eq_zero ?_).symm
    have hn : n < 2 ^ (n.log2 + 1) := Nat.lt_log2_self
    have hbound : 2 * (n * 2 ^ F.scale) < 10 ^ (k + 1) := by
      calc
        2 * (n * 2 ^ F.scale) < 2 * (2 ^ (n.log2 + 1) * 2 ^ F.scale) := by gcongr
        _ = 2 ^ (n.log2 + F.scale + 1 + 1) := by ring
        _ ≤ 2 ^ (k + 1) := Nat.pow_le_pow_right (by norm_num) (by omega)
        _ ≤ 10 ^ (k + 1) := Nat.pow_le_pow_left (by norm_num) _
    refine Nat.lt_of_mul_lt_mul_right (a := 10 ^ (k + 1)) ?_
    calc
      2 * (num * 2 ^ F.scale) * 10 ^ (k + 1) = 2 * (n * 2 ^ F.scale) * den := by
        rw [mul_assoc, mul_right_comm num, h]
        ring
      _ < 10 ^ (k + 1) * den := Nat.mul_lt_mul_of_pos_right hbound hden
      _ = den * 10 ^ (k + 1) := mul_comm _ _
  · exact congrArg (F.pattern negative) (F.nearest_congr hpow hden h.symm)

/-- A literal is rounded as any ratio of its number. -/
theorem nearest_decimal (F : Format) (negative : Bool) {e : ℤ} (hden : 0 < den)
    (h : scaled n e * den = num) :
    (decimal negative n e).nearest F = F.ofRatio negative num den := by
  unfold scaled at h
  cases e with
  | ofNat e =>
    apply nearest_decimal_ofNat F negative e hden
    rw [Int.ofNat_eq_natCast, zpow_natCast] at h
    exact_mod_cast h.symm
  | negSucc k =>
    apply nearest_decimal_negSucc F negative k hden
    rw [zpow_negSucc] at h
    have hpow : (10 : ℚ) ^ (k + 1) ≠ 0 := by positivity
    have hnum : (num : ℚ) * 10 ^ (k + 1) = n * den := by
      rw [← h]
      field_simp
    exact_mod_cast hnum

theorem exists_ratio (n : ℕ) (e : ℤ) : ∃ num den : ℕ, 0 < den ∧ scaled n e * den = num := by
  unfold scaled
  cases e with
  | ofNat e => exact ⟨n * 10 ^ e, 1, Nat.one_pos, by simp⟩
  | negSucc k => exact ⟨n, 10 ^ (k + 1), by positivity, by simp [zpow_negSucc]⟩

theorem Agree.nearest_eq {l l' : Literal} (h : Agree l l') : l.nearest F = l'.nearest F := by
  cases h with
  | infinite s => rfl
  | @decimal s n n' e e' h =>
    obtain ⟨num, den, hden, hratio⟩ := exists_ratio n e
    rw [nearest_decimal F s hden hratio, nearest_decimal F s hden (h ▸ hratio)]

end Literal
end ScalarEval.Ieee
