import Mathlib
import ScalarEval.Proofs.Ieee.Rounding

/-! Singles among the doubles. A double has each value that a single has, so a single is widened
without rounding and comes back when it is narrowed. -/
namespace ScalarEval.Ieee
namespace Format
variable {F G : Format} {m m' : ℕ}

theorem units_zero (F : Format) : F.units 0 = 0 := by
  simp [units]

/-- A format has every short multiple of a power of two that is within its exponents. -/
theorem exists_units_eq (F : Format) {a k : ℕ} (ha : 0 < a) (hshort : a < 2 * 2 ^ F.fractionBits)
    (hk : F.fractionBits ≤ k) (hmax : k + 2 < 2 ^ F.exponentBits) :
    ∃ m < F.infinity, F.units m = a * 2 ^ k := by
  have hlog : a.log2 < F.fractionBits + 1 := by
    rw [Nat.log2_lt ha.ne', pow_succ']
    exact hshort
  have hlower := Nat.log2_self_le ha.ne'
  have hupper := Nat.lt_log2_self (n := a)
  obtain ⟨j, hj⟩ := Nat.exists_eq_add_of_le (Nat.lt_succ_iff.mp hlog)
  obtain ⟨b, rfl⟩ := Nat.exists_eq_add_of_le (show j ≤ k by omega)
  have hfull : 2 ^ F.fractionBits ≤ a * 2 ^ j := by
    rw [hj, pow_add]
    exact Nat.mul_le_mul_right _ hlower
  have hfit : a * 2 ^ j < 2 * 2 ^ F.fractionBits := by
    have hsplit : 2 * 2 ^ F.fractionBits = 2 ^ (a.log2 + 1) * 2 ^ j := by
      rw [← pow_succ', ← pow_add, hj]
      congr 1
      omega
    rw [hsplit]
    exact Nat.mul_lt_mul_of_pos_right hupper (by positivity)
  refine ⟨b * 2 ^ F.fractionBits + a * 2 ^ j, ?_, ?_⟩
  · calc
      b * 2 ^ F.fractionBits + a * 2 ^ j < (b + 2) * 2 ^ F.fractionBits := by
        rw [add_mul]
        omega
      _ ≤ F.infinity := Nat.mul_le_mul_right _ (by omega)
  · rw [units_significand F hfit (.inr hfull)]
    ring

/-- Conversion between formats is exact on the values of both. -/
theorem convert_finite {p u : ℕ} {negative : Bool} (hp : F.decode p = .finite negative u)
    (hm' : m' ≤ G.infinity) (h : u * 2 ^ G.scale = G.units m' * 2 ^ F.scale) :
    F.convert G p = G.pattern negative m' := by
  unfold convert
  rw [hp]
  exact congrArg (G.pattern negative) (nearest_eq_of_units hm' (by positivity) h)

theorem convert_pattern (negative : Bool) (hm : m < F.infinity) (hm' : m' ≤ G.infinity)
    (h : F.units m * 2 ^ G.scale = G.units m' * 2 ^ F.scale) :
    F.convert G (F.pattern negative m) = G.pattern negative m' :=
  convert_finite (decode_pattern_finite hm) hm' h

theorem convert_pattern_infinity (F G : Format) (negative : Bool) :
    F.convert G (F.pattern negative F.infinity) = G.pattern negative G.infinity := by
  unfold convert
  rw [decode_pattern_infinity]

theorem convert_nan (hG : 0 < G.fractionBits) {p : ℕ} (hp : F.decode p = .nan) :
    G.decode (F.convert G p) = .nan := by
  have hquiet : 0 < G.quietBit := by unfold quietBit; positivity
  have hfit := quietNaN_add_lt hG (F.payload_lt G p)
  have hnan : G.infinity < G.quietNaN := Nat.lt_add_of_pos_right hquiet
  unfold convert
  rw [hp, decode_eq_nan_iff, isNaN_pattern hfit]
  exact decide_eq_true (hnan.trans_le (Nat.le_add_right _ _))

end Format

open Format

/-- A finite single in units: a short significand under one of 254 binades. -/
theorem exists_single_significand {m : ℕ} (hm : m < binary32.infinity) :
    ∃ b q, b ≤ 253 ∧ q < 2 ^ 24 ∧ (b = 0 ∨ 2 ^ 23 ≤ q) ∧ m = b * 2 ^ 23 + q ∧
      binary32.units m = q * 2 ^ b := by
  obtain ⟨b, q, rfl, hq, hn⟩ := binary32.exists_significand m
  have hq' : q < 2 ^ 24 := hq
  have hn' : b = 0 ∨ 2 ^ 23 ≤ q := hn
  have hm' : b * 2 ^ 23 + q < 255 * 2 ^ 23 := hm
  exact ⟨b, q, by omega, hq', hn', rfl, units_significand binary32 hq hn⟩

theorem exists_double_units_eq {m : ℕ} (hm : m < binary32.infinity) :
    ∃ m' < binary64.infinity,
      binary32.units m * 2 ^ binary64.scale = binary64.units m' * 2 ^ binary32.scale := by
  obtain ⟨b, q, hb, hq, -, -, hunits⟩ := exists_single_significand hm
  rw [hunits]
  obtain ⟨e, he, hscale⟩ : ∃ e, e = 925 ∧ binary64.scale = e + binary32.scale := ⟨925, rfl, rfl⟩
  rcases Nat.eq_zero_or_pos q with rfl | hpos
  · refine ⟨0, by decide, ?_⟩
    rw [units_zero]
    ring
  · have hshort : q < 2 * 2 ^ 52 := lt_of_lt_of_le hq (by decide)
    obtain ⟨m', hm', hunits'⟩ := binary64.exists_units_eq hpos hshort
      (k := b + e) (by change 52 ≤ b + e; omega) (by change b + e + 2 < 2 ^ 11; omega)
    refine ⟨m', hm', ?_⟩
    rw [hunits', hscale]
    ring

/-- Widening keeps a single that is no NaN, apart from its format. -/
theorem narrow_widen {p : ℕ} (hp : p < 2 ^ 32) (hnan : binary32.isNaN p = false) :
    narrow (widen p) = p ∧ widen p < 2 ^ 64 ∧ binary64.isNaN (widen p) = false := by
  obtain ⟨negative, m, hm, rfl⟩ := exists_pattern_of_isNaN_eq_false (F := binary32) hp hnan
  obtain ⟨m', hm', hwiden, hnarrow⟩ : ∃ m' ≤ binary64.infinity,
      widen (binary32.pattern negative m) = binary64.pattern negative m' ∧
      narrow (binary64.pattern negative m') = binary32.pattern negative m := by
    rcases hm.lt_or_eq with hlt | rfl
    · obtain ⟨m', hm', hunits⟩ := exists_double_units_eq hlt
      exact ⟨m', hm'.le, convert_pattern negative hlt hm'.le hunits,
        convert_pattern negative hm' hm hunits.symm⟩
    · exact ⟨binary64.infinity, le_rfl, convert_pattern_infinity _ _ negative,
        convert_pattern_infinity _ _ negative⟩
  have hfit : m' < binary64.signBit := hm'.trans_lt binary64.infinity_lt_signBit
  rw [hwiden]
  refine ⟨hnarrow, pattern_lt hfit, ?_⟩
  rw [isNaN_pattern hfit]
  exact decide_eq_false (not_lt.mpr hm')

end ScalarEval.Ieee
