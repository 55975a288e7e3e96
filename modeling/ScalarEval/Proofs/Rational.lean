import Mathlib
import ScalarEval.Evaluate.Integer

/-! Arithmetic in the rationals. At integer kinds the exact result of every operator is that of
the rationals, rounded toward zero where it is no integer. -/
namespace ScalarEval

/-- Rounding toward zero. -/
def truncate (x : ℚ) : ℤ :=
  if 0 ≤ x then ⌊x⌋ else ⌈x⌉

@[simp] theorem truncate_intCast (n : ℤ) : truncate n = n := by
  simp [truncate]

theorem truncate_div_natCast (a : ℤ) (d : ℕ) : truncate ((a : ℚ) / d) = a.tdiv d := by
  unfold truncate
  split_ifs with h
  · rw [Rat.floor_intCast_div_natCast]
    rcases Nat.eq_zero_or_pos d with rfl | hd
    · simp
    · have ha : 0 ≤ a := by
        have hd' : (0 : ℚ) < d := by exact_mod_cast hd
        have ha' : (0 : ℚ) * d ≤ a := (le_div_iff₀ hd').mp h
        rw [zero_mul] at ha'
        exact_mod_cast ha'
      exact (Int.tdiv_eq_ediv_of_nonneg ha).symm
  · rw [Rat.ceil_intCast_div_natCast]
    have ha : 0 ≤ -a := by
      by_contra hn
      have ha' : (0 : ℚ) ≤ a := by exact_mod_cast (by omega : 0 ≤ a)
      exact h (by positivity)
    rw [← Int.tdiv_eq_ediv_of_nonneg ha, Int.neg_tdiv, neg_neg]

theorem truncate_div (a b : ℤ) : truncate ((a : ℚ) / b) = a.tdiv b := by
  obtain ⟨d, rfl | rfl⟩ := b.eq_nat_or_neg
  · exact_mod_cast truncate_div_natCast a d
  · have hneg : (a : ℚ) / ((-d : ℤ) : ℚ) = ((-a : ℤ) : ℚ) / d := by
      push_cast
      rw [div_neg, neg_div]
    rw [hneg, truncate_div_natCast, Int.tdiv_neg, Int.neg_tdiv]

namespace Arithmetic

/-- A remainder is what a quotient rounded toward zero leaves. -/
def rational : Arithmetic → ℚ → ℚ → ℚ
  | add, x, y => x + y
  | sub, x, y => x - y
  | mul, x, y => x * y
  | div, x, y => x / y
  | rem, x, y => x - y * truncate (x / y)

theorem exact_eq_truncate (op : Arithmetic) (a b : ℤ) :
    op.exact a b = truncate (op.rational a b) := by
  cases op with
  | add =>
    have hadd : (a : ℚ) + b = (a + b : ℤ) := by push_cast; rfl
    simp only [exact, rational, hadd, truncate_intCast]
  | sub =>
    have hsub : (a : ℚ) - b = (a - b : ℤ) := by push_cast; rfl
    simp only [exact, rational, hsub, truncate_intCast]
  | mul =>
    have hmul : (a : ℚ) * b = (a * b : ℤ) := by push_cast; rfl
    simp only [exact, rational, hmul, truncate_intCast]
  | div => exact (truncate_div a b).symm
  | rem =>
    have hrem : (a : ℚ) - b * (a.tdiv b : ℤ) = (a.tmod b : ℤ) := by
      rw [Int.tmod_def]
      push_cast
      ring
    simp only [exact, rational, truncate_div, hrem, truncate_intCast]

end Arithmetic
end ScalarEval
