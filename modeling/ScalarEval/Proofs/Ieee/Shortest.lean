import Mathlib
import ScalarEval.Ieee.Shortest
import ScalarEval.Proofs.Ieee.Literal

/-! The literal of a pattern is rounded to the pattern. The search for few digits keeps to
numerators that read back, starting from the value itself. -/
namespace ScalarEval.Ieee

namespace DecimalSearch
variable {s : DecimalSearch}

theorem back_of_onGrid? {k n : ℕ} (h : s.onGrid? k = some n) : s.back (n * 10 ^ k) = true := by
  unfold onGrid? at h
  dsimp only at h
  cases hlow : s.back (s.value / 10 ^ k * 10 ^ k) with
  | true =>
    cases hhigh : s.back ((s.value / 10 ^ k + 1) * 10 ^ k) with
    | true =>
      obtain rfl : halfEven s.value (10 ^ k) = n := by simpa [hlow, hhigh] using h
      rcases halfEven_eq_or s.value (10 ^ k) with he | he <;> rw [he]
      · exact hlow
      · exact hhigh
    | false =>
      obtain rfl : s.value / 10 ^ k = n := by simpa [hlow, hhigh] using h
      exact hlow
  | false =>
    cases hhigh : s.back ((s.value / 10 ^ k + 1) * 10 ^ k) with
    | true =>
      obtain rfl : s.value / 10 ^ k + 1 = n := by simpa [hlow, hhigh] using h
      exact hhigh
    | false => simp [hlow, hhigh] at h

/-- Whatever grid the search stops at, its numerator reads back. -/
theorem back_coarsest (hvalue : s.back s.value = true) (k : ℕ) :
    s.back ((s.coarsest k).1 * 10 ^ (s.coarsest k).2) = true := by
  induction k with
  | zero => simpa [coarsest] using hvalue
  | succ k ih =>
    unfold coarsest
    cases hgrid : s.onGrid? (k + 1) with
    | none => exact ih
    | some n => exact back_of_onGrid? hgrid

end DecimalSearch

namespace Format
variable {F : Format}

/-- The digits found stand for a ratio that is rounded as the value is. -/
theorem exists_shortest_eq (F : Format) (units : ℕ) : ∃ digits k : ℕ,
    F.shortest units = (digits, (k : ℤ) - F.scale) ∧
      F.nearest (digits * 10 ^ k) (10 ^ F.scale) = F.nearest units (2 ^ F.scale) := by
  let search : DecimalSearch := ⟨units * 5 ^ F.scale,
    fun n => F.nearest n (10 ^ F.scale) == F.nearest units (2 ^ F.scale)⟩
  have hvalue : search.back search.value = true := by
    have hten : 10 ^ F.scale = 2 ^ F.scale * 5 ^ F.scale := by
      rw [← mul_pow]
      norm_num
    have hscaled := F.nearest_mul units (2 ^ F.scale) (c := 5 ^ F.scale) (by positivity)
    change (F.nearest (units * 5 ^ F.scale) (10 ^ F.scale) == _) = true
    rw [hten, hscaled, beq_self_eq_true]
  have hback := search.back_coarsest hvalue ((Nat.toDigits 10 search.value).length - 1)
  exact ⟨_, _, rfl, beq_iff_eq.mp hback⟩

theorem nearest_literal_finite (negative : Bool) {m : ℕ} (hm : m < F.infinity) :
    (F.literal (F.pattern negative m)).nearest F = F.pattern negative m := by
  have hself : F.nearest (F.units m) (2 ^ F.scale) = m := nearest_units hm.le
  unfold literal
  rw [decode_pattern_finite hm]
  dsimp only
  by_cases hzero : F.units m = 0
  · obtain rfl : m = 0 := by
      rw [← hself, hzero]
      exact nearest_eq_zero (by simp)
    rw [if_pos hzero]
    rfl
  · obtain ⟨digits, k, hshortest, hnearest⟩ := F.exists_shortest_eq (F.units m)
    rw [if_neg hzero, hshortest]
    have hratio : scaled digits ((k : ℤ) - F.scale) * (10 ^ F.scale : ℕ) =
        (digits * 10 ^ k : ℕ) := by
      unfold scaled
      push_cast
      rw [zpow_sub₀ (by norm_num), zpow_natCast, zpow_natCast]
      field_simp
    rw [Literal.nearest_decimal F negative (by positivity) hratio]
    exact congrArg (F.pattern negative) (hnearest.trans hself)

/-- A pattern that is no NaN is the nearest to its literal. -/
theorem nearest_literal {p : ℕ} (hp : p < 2 * F.signBit) (hnan : F.isNaN p = false) :
    (F.literal p).nearest F = p := by
  obtain ⟨negative, m, hm, rfl⟩ := exists_pattern_of_isNaN_eq_false hp hnan
  rcases hm.lt_or_eq with hlt | rfl
  · exact nearest_literal_finite negative hlt
  · unfold literal
    rw [decode_pattern_infinity]
    rfl

theorem literal_ne_nan {p : ℕ} (hnan : F.isNaN p = false) (negative : Bool) :
    F.literal p ≠ .nan negative := by
  have hdecode : F.decode p ≠ .nan := by
    rw [ne_eq, decode_eq_nan_iff, hnan]
    decide
  unfold literal
  cases h : F.decode p with
  | nan => exact absurd h hdecode
  | infinite s => simp
  | finite s u =>
    dsimp only
    split_ifs <;> simp

end Format
end ScalarEval.Ieee
