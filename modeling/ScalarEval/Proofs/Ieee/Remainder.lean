import Mathlib
import ScalarEval.Proofs.Ieee.Operation

/-! Remainders are not rounded. The remainder of two values is a whole number of the smaller of their
steps and less than both, so it is itself a value of the format, however large the quotient is. -/
namespace ScalarEval.Ieee
namespace Format
variable {F : Format} {p q i j : ℕ}

/-- Every short multiple of a power of two is a value, or would be one if exponents were not
bounded. -/
theorem exists_units (F : Format) {a : ℕ} (ha : a < 2 * 2 ^ F.fractionBits) (b : ℕ) :
    ∃ m, F.units m = a * 2 ^ b := by
  induction b generalizing a with
  | zero =>
    have hlowest := units_significand F (b := 0) ha (.inl rfl)
    exact ⟨_, hlowest⟩
  | succ b ih =>
    rcases lt_or_ge a (2 ^ F.fractionBits) with hshort | hfull
    · obtain ⟨m, hm⟩ := ih (a := 2 * a) (by omega)
      refine ⟨m, ?_⟩
      rw [hm]
      ring
    · exact ⟨_, units_significand F ha (.inr hfull)⟩

/-- The remainder keeps the step of the dividend or that of the divisor, whichever is smaller. -/
theorem exists_units_mod (F : Format) (i : ℕ) (hj : F.units j ≠ 0) :
    ∃ h, F.units h = F.units i % F.units j ∧ h ≤ i ∧ h < j := by
  obtain ⟨h, hunits⟩ : ∃ h, F.units h = F.units i % F.units j := by
    obtain ⟨b, a, rfl, ha, hfull⟩ := F.exists_significand i
    obtain ⟨c, d, rfl, hd, hfull'⟩ := F.exists_significand j
    rw [units_significand F hd hfull'] at hj ⊢
    rw [units_significand F ha hfull]
    rcases le_total b c with hbc | hcb
    · have hmod : a * 2 ^ b % (d * 2 ^ c) = a % (d * 2 ^ (c - b)) * 2 ^ b := by
        rw [← Nat.mul_mod_mul_right, mul_assoc, ← pow_add, Nat.sub_add_cancel hbc]
      rw [hmod]
      exact F.exists_units ((Nat.mod_le _ _).trans_lt ha) b
    · have hmod : a * 2 ^ b % (d * 2 ^ c) = a * 2 ^ (b - c) % d * 2 ^ c := by
        rw [← Nat.mul_mod_mul_right, mul_assoc, ← pow_add, Nat.sub_add_cancel hcb]
      have hpos : 0 < d := Nat.pos_of_ne_zero fun h => hj (by rw [h, zero_mul])
      rw [hmod]
      exact F.exists_units ((Nat.mod_lt _ hpos).trans hd) c
  refine ⟨h, hunits, ?_, ?_⟩
  · rw [← F.units_strictMono.le_iff_le, hunits]
    exact Nat.mod_le _ _
  · rw [← F.units_strictMono.lt_iff_lt, hunits]
    exact Nat.mod_lt _ (Nat.pos_of_ne_zero hj)

theorem ofRatio_units (hi : i ≤ F.infinity) (s : Bool) :
    F.ofRatio s (F.units i) (2 ^ F.scale) = F.pattern s i := by
  rw [ofRatio, nearest_units hi]

theorem remData_finite (hi : i ≤ F.infinity) (hj : F.units j ≠ 0) (s t : Bool) :
    ∃ h, F.units h = F.units i % F.units j ∧ h ≤ i ∧ h < j ∧
      F.remData (.finite s (F.units i)) (.finite t (F.units j)) = F.pattern s h := by
  obtain ⟨h, hunits, hle, hlt⟩ := F.exists_units_mod i hj
  refine ⟨h, hunits, hle, hlt, ?_⟩
  unfold remData
  simp only [if_neg hj]
  rw [← hunits, ofRatio_units (hle.trans hi)]

end Format
end ScalarEval.Ieee
