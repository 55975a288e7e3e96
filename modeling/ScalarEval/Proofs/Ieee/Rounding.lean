import Mathlib
import ScalarEval.Proofs.Ieee.Pattern

/-! Rounding exact ratios. The result depends on the ratio alone, is exact on the values of a
format, and reaches infinity and zero where a ratio is far outside the format. -/
namespace ScalarEval.Ieee

section HalfEven
variable {n d c : ℕ}

theorem halfEven_eq_or (n d : ℕ) : halfEven n d = n / d ∨ halfEven n d = n / d + 1 := by
  have hparity : n / d % 2 = 0 ∨ n / d % 2 = 1 := Nat.mod_two_eq_zero_or_one _
  unfold halfEven
  dsimp only
  split_ifs
  · exact .inl rfl
  · exact .inr rfl
  · rcases hparity with h | h <;> rw [h]
    · exact .inl rfl
    · exact .inr rfl

theorem div_le_halfEven (n d : ℕ) : n / d ≤ halfEven n d := by
  rcases halfEven_eq_or n d with h | h <;> omega

theorem halfEven_mul (n d : ℕ) (hc : 0 < c) : halfEven (n * c) (d * c) = halfEven n d := by
  have hlow : 2 * (n % d * c) < d * c ↔ 2 * (n % d) < d := by
    rw [← mul_assoc, Nat.mul_lt_mul_right hc]
  have hhigh : d * c < 2 * (n % d * c) ↔ d < 2 * (n % d) := by
    rw [← mul_assoc, Nat.mul_lt_mul_right hc]
  unfold halfEven
  simp only [Nat.mul_div_mul_right _ _ hc, Nat.mul_mod_mul_right, hlow, hhigh]

/-- A whole number is its own nearest integer. -/
theorem halfEven_mul_self (n : ℕ) (hd : 0 < d) : halfEven (n * d) d = n := by
  unfold halfEven
  simp [Nat.mul_div_cancel n hd, hd]

theorem halfEven_eq_zero (h : 2 * n < d) : halfEven n d = 0 := by
  have hlt : n < d := by omega
  unfold halfEven
  simp [Nat.div_eq_of_lt hlt, Nat.mod_eq_of_lt hlt, h]

/-- A quotient that reaches a power of two still does after the lower bits are rounded away. -/
theorem two_pow_le_halfEven {f l : ℕ} (hfl : f ≤ l) (h : 2 ^ l ≤ n / d) :
    2 ^ f ≤ halfEven n (d * 2 ^ (l - f)) := by
  refine le_trans ?_ (div_le_halfEven _ _)
  rw [← Nat.div_div_eq_div_mul, Nat.le_div_iff_mul_le (by positivity), ← pow_add,
    Nat.add_sub_cancel' hfl]
  exact h

end HalfEven

namespace Format
variable {F : Format} {num den m : ℕ}

/-- A magnitude is its binade and a significand, which is short in the lowest binade only. -/
theorem exists_significand (F : Format) (m : ℕ) : ∃ b q, m = b * 2 ^ F.fractionBits + q ∧
    q < 2 * 2 ^ F.fractionBits ∧ (b = 0 ∨ 2 ^ F.fractionBits ≤ q) := by
  have hp : 0 < 2 ^ F.fractionBits := by positivity
  have hm := Nat.div_add_mod' m (2 ^ F.fractionBits)
  have hr := Nat.mod_lt m hp
  rcases Nat.eq_zero_or_pos (m / 2 ^ F.fractionBits) with hz | hz
  · refine ⟨0, m, by omega, ?_, .inl rfl⟩
    rw [hz] at hm
    omega
  · refine ⟨m / 2 ^ F.fractionBits - 1, 2 ^ F.fractionBits + m % 2 ^ F.fractionBits, ?_, by omega,
      .inr (by omega)⟩
    conv_lhs => rw [← hm]
    obtain ⟨b, hb⟩ := Nat.exists_eq_add_of_lt hz
    rw [hb]
    simp only [Nat.zero_add, Nat.add_sub_cancel]
    ring

theorem units_significand (F : Format) {b q : ℕ} (hq : q < 2 * 2 ^ F.fractionBits)
    (hn : b = 0 ∨ 2 ^ F.fractionBits ≤ q) :
    F.units (b * 2 ^ F.fractionBits + q) = q * 2 ^ b := by
  have hp : 0 < 2 ^ F.fractionBits := by positivity
  unfold units
  dsimp only
  by_cases hlow : q < 2 ^ F.fractionBits
  · obtain rfl : b = 0 := by omega
    simp [Nat.div_eq_of_lt hlow]
  · obtain ⟨f, rfl⟩ := Nat.exists_eq_add_of_le (not_lt.mp hlow)
    have hf : f < 2 ^ F.fractionBits := by omega
    have hsum : b * 2 ^ F.fractionBits + (2 ^ F.fractionBits + f) =
        f + (b + 1) * 2 ^ F.fractionBits := by ring
    rw [hsum, Nat.add_mul_div_right _ _ hp, Nat.div_eq_of_lt hf, Nat.add_mul_mod_self_right,
      Nat.mod_eq_of_lt hf]
    simp

theorem nearest_mul (F : Format) (num den : ℕ) {c : ℕ} (hc : 0 < c) :
    F.nearest (num * c) (den * c) = F.nearest num den := by
  have hnum : num * c * 2 ^ F.scale = num * 2 ^ F.scale * c := by ring
  have hden : ∀ b, den * c * 2 ^ b = den * 2 ^ b * c := fun b => by ring
  unfold nearest
  dsimp only
  rw [hnum, Nat.mul_div_mul_right _ _ hc, hden, halfEven_mul _ _ hc]

theorem ofRatio_mul (F : Format) (negative : Bool) (num den : ℕ) {c : ℕ} (hc : 0 < c) :
    F.ofRatio negative (num * c) (den * c) = F.ofRatio negative num den := by
  rw [ofRatio, ofRatio, nearest_mul F _ _ hc]

/-- Equal ratios have the same nearest magnitude. -/
theorem nearest_congr (F : Format) {a b c d : ℕ} (hb : 0 < b) (hd : 0 < d) (h : a * d = c * b) :
    F.nearest a b = F.nearest c d := by
  rw [← F.nearest_mul a b hd, ← F.nearest_mul c d hb, h, mul_comm b d]

/-- The binade of a significand is told by its leading bit. -/
theorem log2_significand (F : Format) {b q : ℕ} (hq : q < 2 * 2 ^ F.fractionBits)
    (hn : b = 0 ∨ 2 ^ F.fractionBits ≤ q) : (q * 2 ^ b).log2 - F.fractionBits = b := by
  have hupper : q < 2 ^ (F.fractionBits + 1) := by rwa [pow_succ']
  rcases hn with rfl | hn
  · rw [pow_zero, mul_one]
    rcases Nat.eq_zero_or_pos q with rfl | hpos
    · simp
    · have hlog : q.log2 < F.fractionBits + 1 := (Nat.log2_lt hpos.ne').mpr hupper
      omega
  · have hpos : 0 < q := lt_of_lt_of_le (by positivity) hn
    have hlower : 2 ^ (F.fractionBits + b) ≤ q * 2 ^ b := by
      rw [pow_add]
      exact Nat.mul_le_mul_right _ hn
    have hupper' : q * 2 ^ b < 2 ^ (F.fractionBits + b + 1) := by
      rw [Nat.add_right_comm, pow_add]
      exact Nat.mul_lt_mul_of_pos_right hupper (by positivity)
    have hlog : (q * 2 ^ b).log2 = F.fractionBits + b :=
      (Nat.log2_eq_iff (by positivity)).mpr ⟨hlower, hupper'⟩
    omega

/-- A magnitude is the nearest to its own units. -/
theorem nearest_units (hm : m ≤ F.infinity) : F.nearest (F.units m) (2 ^ F.scale) = m := by
  have hs : 0 < 2 ^ F.scale := by positivity
  obtain ⟨b, q, rfl, hq, hn⟩ := F.exists_significand m
  unfold nearest
  dsimp only
  rw [units_significand F hq hn, Nat.mul_div_cancel _ hs, log2_significand F hq hn]
  have hround : halfEven (q * 2 ^ b * 2 ^ F.scale) (2 ^ F.scale * 2 ^ b) = q := by
    rw [mul_assoc, mul_comm (2 ^ b)]
    exact halfEven_mul_self q (by positivity)
  rw [hround]
  exact min_eq_left hm

theorem nearest_eq_of_units (hm : m ≤ F.infinity) (hden : 0 < den)
    (h : num * 2 ^ F.scale = F.units m * den) : F.nearest num den = m := by
  rw [F.nearest_congr hden (by positivity) h, nearest_units hm]

/-- Ratios from the power of two that is one above the greatest exponent are infinite. -/
theorem nearest_eq_infinity (hden : 0 < den) (h : 2 ^ 2 ^ (F.exponentBits - 1) * den ≤ num) :
    F.nearest num den = F.infinity := by
  have hquotient : 2 ^ (2 ^ (F.exponentBits - 1) + F.scale) ≤ num * 2 ^ F.scale / den := by
    rw [Nat.le_div_iff_mul_le hden, pow_add]
    calc
      2 ^ 2 ^ (F.exponentBits - 1) * 2 ^ F.scale * den =
          2 ^ 2 ^ (F.exponentBits - 1) * den * 2 ^ F.scale := by ring
      _ ≤ num * 2 ^ F.scale := Nat.mul_le_mul_right _ h
  have hne : num * 2 ^ F.scale / den ≠ 0 :=
    (lt_of_lt_of_le (by positivity) hquotient).ne'
  have hlog : 2 ^ (F.exponentBits - 1) + F.scale ≤ (num * 2 ^ F.scale / den).log2 :=
    (Nat.le_log2 hne).mpr hquotient
  have hself := Nat.log2_self_le hne
  unfold nearest
  dsimp only
  generalize (num * 2 ^ F.scale / den).log2 = l at hlog hself ⊢
  have hscale : F.scale = 2 ^ (F.exponentBits - 1) - 2 + F.fractionBits := rfl
  have hone : 0 < 2 ^ (F.exponentBits - 1) := by positivity
  have hround := two_pow_le_halfEven (by omega : F.fractionBits ≤ l) hself
  have hdouble : 2 ^ F.exponentBits ≤ 2 * 2 ^ (F.exponentBits - 1) := by
    rw [← pow_succ']
    exact Nat.pow_le_pow_right (by norm_num) (by omega)
  have hexponent : 2 ^ F.exponentBits - 1 ≤ l - F.fractionBits + 1 := by omega
  apply min_eq_right
  calc
    F.infinity ≤ (l - F.fractionBits + 1) * 2 ^ F.fractionBits := Nat.mul_le_mul_right _ hexponent
    _ = (l - F.fractionBits) * 2 ^ F.fractionBits + 2 ^ F.fractionBits := by ring
    _ ≤ _ := Nat.add_le_add_left hround _

theorem nearest_eq_zero (h : 2 * (num * 2 ^ F.scale) < den) : F.nearest num den = 0 := by
  have hlt : num * 2 ^ F.scale < den := by omega
  unfold nearest
  simp [Nat.div_eq_of_lt hlt, halfEven_eq_zero h]

end Format
end ScalarEval.Ieee
