import Mathlib
import ScalarEval.Ieee.Rounding

/-! Patterns at the width of their format: of those that are read only the bits within it count,
and those that are made by rounding fit it. -/
namespace ScalarEval.Ieee
namespace Format
variable {F G : Format}

/-- The infinities leave one binade of magnitudes to the NaNs. -/
theorem infinity_add (F : Format) : F.infinity + 2 ^ F.fractionBits = F.signBit := by
  have hp : 0 < 2 ^ F.exponentBits := by positivity
  have he : F.infinity + 2 ^ F.fractionBits =
      (2 ^ F.exponentBits - 1 + 1) * 2 ^ F.fractionBits := by
    unfold infinity
    ring
  rw [he, Nat.sub_add_cancel hp, ← pow_add]
  rfl

theorem infinity_lt_signBit (F : Format) : F.infinity < F.signBit := by
  have hp : 0 < 2 ^ F.fractionBits := by positivity
  have := F.infinity_add
  omega

theorem magnitude_mod (F : Format) (p : ℕ) : F.magnitude (p % (2 * F.signBit)) = F.magnitude p :=
  Nat.mod_mul_left_mod p 2 _

theorem isNegative_mod (F : Format) (p : ℕ) :
    F.isNegative (p % (2 * F.signBit)) = F.isNegative p := by
  unfold isNegative
  rw [mul_comm, Nat.mod_mul_right_div_self, Nat.mod_mod]

/-- Bits above the sign are not decoded. -/
theorem decode_mod (F : Format) (p : ℕ) : F.decode (p % (2 * F.signBit)) = F.decode p := by
  unfold decode
  rw [magnitude_mod, isNegative_mod]

theorem convert_mod (F G : Format) (p : ℕ) :
    F.convert G (p % (2 * F.signBit)) = F.convert G p := by
  unfold convert
  rw [decode_mod, magnitude_mod, isNegative_mod]

theorem quietBit_pos (F : Format) : 0 < F.quietBit :=
  Nat.two_pow_pos _

theorem quietNaN_add_lt (hF : 0 < F.fractionBits) {payload : ℕ} (hp : payload < F.quietBit) :
    F.quietNaN + payload < F.signBit := by
  have hq : 2 * F.quietBit = 2 ^ F.fractionBits := by
    unfold quietBit
    rw [← pow_succ', Nat.sub_add_cancel hF]
  have := F.infinity_add
  unfold quietNaN
  omega

theorem pattern_lt {negative : Bool} {m : ℕ} (h : m < F.signBit) :
    F.pattern negative m < 2 * F.signBit := by
  unfold pattern
  cases negative <;> simp <;> omega

theorem magnitude_pattern {negative : Bool} {m : ℕ} (h : m < F.signBit) :
    F.magnitude (F.pattern negative m) = m := by
  unfold magnitude pattern
  cases negative <;> simp [Nat.mod_eq_of_lt h]

theorem isNegative_pattern {negative : Bool} {m : ℕ} (h : m < F.signBit) :
    F.isNegative (F.pattern negative m) = negative := by
  have hp : 0 < F.signBit := by omega
  unfold isNegative pattern
  cases negative <;> simp [Nat.div_eq_of_lt h, Nat.add_div_left _ hp]

/-- A pattern within the width of its format is a sign and a magnitude. -/
theorem exists_pattern {p : ℕ} (h : p < 2 * F.signBit) :
    ∃ negative m, m < F.signBit ∧ p = F.pattern negative m := by
  have hp : 0 < F.signBit := by omega
  refine ⟨decide (F.signBit ≤ p), p % F.signBit, Nat.mod_lt p hp, ?_⟩
  unfold pattern
  by_cases hs : F.signBit ≤ p
  · have hm : p % F.signBit = p - F.signBit := by
      rw [Nat.mod_eq_sub_mod hs, Nat.mod_eq_of_lt (by omega)]
    simp only [hs, decide_true, if_true]
    omega
  · simp [hs, Nat.mod_eq_of_lt (not_le.mp hs)]

theorem magnitude_lt_signBit (F : Format) (p : ℕ) : F.magnitude p < F.signBit :=
  Nat.mod_lt p (Nat.two_pow_pos _)

/-- The two fields are all that is read of a pattern. -/
theorem pattern_fields (F : Format) (p : ℕ) :
    F.pattern (F.isNegative p) (F.magnitude p) = p % (2 * F.signBit) := by
  have hlt : p % (2 * F.signBit) < 2 * F.signBit :=
    Nat.mod_lt p (Nat.mul_pos two_pos (Nat.two_pow_pos _))
  obtain ⟨s, m, hm, hp⟩ := exists_pattern hlt
  rw [← isNegative_mod, ← magnitude_mod, hp, isNegative_pattern hm, magnitude_pattern hm]

theorem decode_finite {p : ℕ} (h : F.magnitude p < F.infinity) :
    F.decode p = .finite (F.isNegative p) (F.units (F.magnitude p)) := by
  unfold decode
  simp only [if_neg h.ne, if_neg (Nat.not_lt.mpr h.le)]

theorem decode_infinite {p : ℕ} (h : F.magnitude p = F.infinity) :
    F.decode p = .infinite (F.isNegative p) := by
  unfold decode
  simp only [if_neg h.not_gt, if_pos h]

theorem decode_pattern_finite {negative : Bool} {m : ℕ} (h : m < F.infinity) :
    F.decode (F.pattern negative m) = .finite negative (F.units m) := by
  have hs := h.trans F.infinity_lt_signBit
  rw [decode_finite (by rwa [magnitude_pattern hs]), magnitude_pattern hs, isNegative_pattern hs]

theorem decode_pattern_infinity (F : Format) (negative : Bool) :
    F.decode (F.pattern negative F.infinity) = .infinite negative := by
  have hs := F.infinity_lt_signBit
  unfold decode
  simp only [magnitude_pattern hs, isNegative_pattern hs, lt_irrefl, if_true, if_false]

theorem decode_eq_nan_iff {p : ℕ} : F.decode p = .nan ↔ F.isNaN p = true := by
  unfold decode isNaN
  dsimp only
  split_ifs <;> simp_all

theorem isNaN_pattern {negative : Bool} {m : ℕ} (h : m < F.signBit) :
    F.isNaN (F.pattern negative m) = decide (F.infinity < m) := by
  unfold isNaN
  rw [magnitude_pattern h]

/-- A pattern that is no NaN is finite or an infinity, under its sign. -/
theorem exists_pattern_of_isNaN_eq_false {p : ℕ} (h : p < 2 * F.signBit)
    (hnan : F.isNaN p = false) :
    ∃ negative m, m ≤ F.infinity ∧ p = F.pattern negative m := by
  obtain ⟨negative, m, hm, rfl⟩ := exists_pattern h
  rw [isNaN_pattern hm] at hnan
  exact ⟨negative, m, not_lt.mp (of_decide_eq_false hnan), rfl⟩

theorem nearest_le_infinity (F : Format) (num den : ℕ) : F.nearest num den ≤ F.infinity :=
  min_le_right _ _

theorem ofRatio_lt (F : Format) (negative : Bool) (num den : ℕ) :
    F.ofRatio negative num den < 2 * F.signBit :=
  pattern_lt ((F.nearest_le_infinity num den).trans_lt F.infinity_lt_signBit)

/-- The payload of a NaN, brought to another format, fits below its quiet bit. -/
theorem payload_lt (F G : Format) (p : ℕ) :
    F.magnitude p % F.quietBit * G.quietBit / F.quietBit < G.quietBit := by
  have hq := F.quietBit_pos
  have hg := G.quietBit_pos
  rw [Nat.div_lt_iff_lt_mul hq, mul_comm]
  exact Nat.mul_lt_mul_of_pos_left (Nat.mod_lt _ hq) hg

theorem convert_lt (hG : 0 < G.fractionBits) (p : ℕ) : F.convert G p < 2 * G.signBit := by
  unfold convert
  cases F.decode p with
  | finite s u => exact G.ofRatio_lt s u _
  | infinite s => exact pattern_lt G.infinity_lt_signBit
  | nan => exact pattern_lt (quietNaN_add_lt hG (F.payload_lt G p))

end Format

theorem narrow_lt (p : ℕ) : narrow p < 2 ^ 32 :=
  Format.convert_lt (by decide) p

end ScalarEval.Ieee
