import Mathlib
import ScalarEval.Proofs.Ieee.Remainder
import ScalarEval.Proofs.Ieee.Special

/-! Operations on singles carried out on doubles. Rounding their results to singles again gives what
the operations in the narrower format give, on numbers, infinities and NaNs alike; a remainder is the
same number before and after. -/
namespace ScalarEval.Ieee

open Format

theorem narrow_quietNaN : narrow binary64.quietNaN = binary32.quietNaN := by
  decide

theorem narrow_infinity (s : Bool) :
    narrow (binary64.pattern s binary64.infinity) = binary32.pattern s binary32.infinity :=
  convert_pattern_infinity binary64 binary32 s

theorem narrow_zero (s : Bool) : narrow (binary64.pattern s 0) = binary32.pattern s 0 :=
  convert_pattern s regular_binary64.infinity_pos (Nat.zero_le _) (by simp [units_zero])

/-- The value of a single, rounded to a double, is the single widened. -/
theorem ofRatio_units_single {m : ℕ} (hm : m < binary32.infinity) (s : Bool) :
    binary64.ofRatio s (binary32.units m * finer) (2 ^ binary64.scale) =
      widen (binary32.pattern s m) := by
  unfold widen convert
  rw [decode_pattern_finite hm, two_pow_scale_binary64, ofRatio_mul _ _ _ _ finer_pos]

theorem narrow_widen_pattern {m : ℕ} (hm : m < binary32.infinity) (s : Bool) :
    narrow (widen (binary32.pattern s m)) = binary32.pattern s m := by
  have hfit : binary32.pattern s m < 2 ^ 32 := pattern_lt (hm.trans binary32.infinity_lt_signBit)
  exact (narrow_widen hfit (isNaN_pattern_of_le hm.le)).1

namespace Widened
variable {x x' y y' : Datum}

theorem negate (h : Widened x x') : Widened x.negate x'.negate := by
  cases h with
  | nan => exact .nan
  | infinite s => exact .infinite _
  | finite s hm => exact .finite _ hm

theorem narrow_addData (hx : Widened x x') (hy : Widened y y') :
    narrow (binary64.addData x' y') = binary32.addData x y := by
  cases hx with
  | nan => cases hy <;> exact narrow_quietNaN
  | infinite s =>
    cases hy with
    | nan => exact narrow_quietNaN
    | infinite t =>
      simp only [addData]
      split_ifs
      · exact narrow_infinity s
      · exact narrow_quietNaN
    | finite t hn => exact narrow_infinity s
  | finite s hm =>
    cases hy with
    | nan => exact narrow_quietNaN
    | infinite t => exact narrow_infinity t
    | finite t hn => exact Ieee.narrow_addData hm hn s t

theorem units_mul_finer_eq_zero_iff {m : ℕ} : m * finer = 0 ↔ m = 0 := by
  rw [Nat.mul_eq_zero, or_iff_left finer_pos.ne']

theorem narrow_mulData (hx : Widened x x') (hy : Widened y y') :
    narrow (binary64.mulData x' y') = binary32.mulData x y := by
  cases hx with
  | nan => cases hy <;> exact narrow_quietNaN
  | infinite s =>
    cases hy with
    | nan => exact narrow_quietNaN
    | infinite t => exact narrow_infinity _
    | finite t hn =>
      simp only [mulData, units_mul_finer_eq_zero_iff]
      split_ifs
      · exact narrow_quietNaN
      · exact narrow_infinity _
  | finite s hm =>
    cases hy with
    | nan => exact narrow_quietNaN
    | infinite t =>
      simp only [mulData, units_mul_finer_eq_zero_iff]
      split_ifs
      · exact narrow_quietNaN
      · exact narrow_infinity _
    | finite t hn => exact Ieee.narrow_mulData hm hn s t

theorem narrow_divData (hx : Widened x x') (hy : Widened y y') :
    narrow (binary64.divData x' y') = binary32.divData x y := by
  cases hx with
  | nan => cases hy <;> exact narrow_quietNaN
  | infinite s =>
    cases hy with
    | nan | infinite t => exact narrow_quietNaN
    | finite t hn => exact narrow_infinity _
  | finite s hm =>
    cases hy with
    | nan => exact narrow_quietNaN
    | infinite t => exact narrow_zero _
    | @finite t n hn =>
      rcases Nat.eq_zero_or_pos (binary32.units n) with hzero | hpos
      · simp only [divData, hzero, zero_mul, if_true, units_mul_finer_eq_zero_iff]
        split_ifs
        · exact narrow_quietNaN
        · exact narrow_infinity _
      · exact Ieee.narrow_divData hm hn s t hpos

/-- The remainder of doubles is that of singles, which needs no rounding. -/
theorem remData_eq (hx : Widened x x') (hy : Widened y y') :
    binary64.remData x' y' = widen (binary32.remData x y) ∧
      narrow (widen (binary32.remData x y)) = binary32.remData x y := by
  have hnan : binary64.quietNaN = widen binary32.quietNaN ∧
      narrow (widen binary32.quietNaN) = binary32.quietNaN := by decide
  cases hx with
  | nan => cases hy <;> exact hnan
  | infinite s => cases hy <;> exact hnan
  | @finite s m hm =>
    cases hy with
    | nan => exact hnan
    | infinite t =>
      simp only [remData]
      rw [ofRatio_units_single hm, ofRatio_units hm.le]
      exact ⟨rfl, narrow_widen_pattern hm s⟩
    | @finite t n hn =>
      by_cases hzero : binary32.units n = 0
      · simp only [remData, hzero, zero_mul, if_true]
        exact hnan
      · obtain ⟨h, hunits, hle, -, hrem⟩ := remData_finite hm.le hzero s t
        have hzero' : binary32.units n * finer ≠ 0 := units_mul_finer_eq_zero_iff.not.mpr hzero
        rw [hrem]
        refine ⟨?_, narrow_widen_pattern (hle.trans_lt hm) s⟩
        rw [← ofRatio_units_single (hle.trans_lt hm), hunits]
        simp only [remData, if_neg hzero', Nat.mul_mod_mul_right]

end Widened

end ScalarEval.Ieee
