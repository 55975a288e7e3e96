import Mathlib
import ScalarEval.Proofs.Ieee.Midpoint

/-! Rounding to nearest, stated by distances. The magnitude found for a ratio is as near to it as
any finite value, is even where two are equally near, and is infinite from half a step above the
greatest finite value on. -/
namespace ScalarEval.Ieee
namespace Format
variable {F : Format}

/-- There is a fraction to be even, and there are normal values. -/
structure Regular (F : Format) : Prop where
  fraction : 0 < F.fractionBits
  exponent : 1 < F.exponentBits

theorem regular_binary32 : binary32.Regular := ⟨by decide, by decide⟩

theorem regular_binary64 : binary64.Regular := ⟨by decide, by decide⟩

/-- The greatest exponent of finite values, which is also the bias of exponent fields. -/
def maxExponent (F : Format) : ℕ :=
  2 ^ (F.exponentBits - 1) - 1

/-- The value of a finite magnitude, from its exponent field and its trailing significand. -/
def value (F : Format) (m : ℕ) : ℚ :=
  let fraction : ℚ := (m % 2 ^ F.fractionBits : ℕ) / 2 ^ F.fractionBits
  if m / 2 ^ F.fractionBits = 0 then fraction * 2 ^ (1 - F.maxExponent : ℤ)
  else (1 + fraction) * 2 ^ ((m / 2 ^ F.fractionBits : ℕ) - F.maxExponent : ℤ)

theorem Regular.exists_maxExponent (hF : F.Regular) :
    ∃ e, F.maxExponent = e + 1 ∧ F.scale = e + F.fractionBits ∧ 2 ^ F.exponentBits = 2 * (e + 2) := by
  have htwo : 2 ^ 1 ≤ 2 ^ (F.exponentBits - 1) :=
    Nat.pow_le_pow_right (by norm_num) (by have := hF.exponent; omega)
  have hdouble : 2 ^ F.exponentBits = 2 * 2 ^ (F.exponentBits - 1) := by
    rw [← pow_succ', Nat.sub_add_cancel (by have := hF.exponent; omega)]
  have hscale : F.scale = 2 ^ (F.exponentBits - 1) - 2 + F.fractionBits := rfl
  refine ⟨2 ^ (F.exponentBits - 1) - 2, ?_, hscale, ?_⟩
  · unfold maxExponent
    omega
  · omega

theorem Regular.infinity_pos (hF : F.Regular) : 0 < F.infinity := by
  obtain ⟨e, -, -, hexp⟩ := hF.exists_maxExponent
  have hp : 0 < 2 ^ F.exponentBits - 1 := by omega
  unfold infinity
  positivity

/-- A unit is worth `2 ^ -scale`. -/
theorem value_eq (hF : F.Regular) (m : ℕ) : F.value m = F.units m / 2 ^ F.scale := by
  obtain ⟨e, hmax, hscale, -⟩ := hF.exists_maxExponent
  have hlow := Nat.div_add_mod' m (2 ^ F.fractionBits)
  unfold value units
  rw [hmax, hscale, pow_add]
  dsimp only
  split_ifs with hzero
  · rw [hzero, zero_mul, zero_add] at hlow
    rw [hlow]
    have hexp : (1 - (e + 1 : ℕ) : ℤ) = -e := by push_cast; ring
    rw [hexp, zpow_neg, zpow_natCast]
    field_simp
  · obtain ⟨b, hb⟩ := Nat.exists_eq_succ_of_ne_zero hzero
    have hexp : ((b.succ : ℕ) - (e + 1 : ℕ) : ℤ) = b - e := by push_cast; ring
    rw [hb, hexp, zpow_sub₀ (by norm_num), zpow_natCast, zpow_natCast]
    push_cast
    field_simp

/-- Numbers from here on are rounded to infinity. -/
def overflowBound (F : Format) : ℚ :=
  (2 - 1 / 2 ^ (F.fractionBits + 1)) * 2 ^ F.maxExponent

/-- Rounding of a number that is not negative: to nearest, ties to even. -/
structure Rounds (F : Format) (x : ℚ) (m : ℕ) : Prop where
  le_infinity : m ≤ F.infinity
  eq_infinity_iff : m = F.infinity ↔ F.overflowBound ≤ x
  nearest : m < F.infinity → ∀ j < F.infinity, |F.value m - x| ≤ |F.value j - x|
  even : m < F.infinity → ∀ j < F.infinity, j ≠ m → |F.value j - x| = |F.value m - x| → Even m

/-- The bound is half way between the greatest finite value and the next power of two. -/
theorem overflowBound_eq (hF : F.Regular) :
    F.overflowBound * 2 ^ F.scale = F.midpoint (F.infinity - 1) := by
  obtain ⟨e, hmax, hscale, hexp⟩ := hF.exists_maxExponent
  have hp : 0 < 2 ^ F.fractionBits := by positivity
  have hinfinity : F.infinity = (2 * e + 2) * 2 ^ F.fractionBits + 2 ^ F.fractionBits := by
    have h : 2 ^ F.exponentBits - 1 = 2 * e + 2 + 1 := by omega
    unfold infinity
    rw [h]
    ring
  obtain ⟨q, hq⟩ : ∃ q, 2 * 2 ^ F.fractionBits = q + 1 := ⟨2 * 2 ^ F.fractionBits - 1, by omega⟩
  have hgreatest : F.infinity - 1 = (2 * e + 1) * 2 ^ F.fractionBits + q := by
    have h : (2 * e + 2) * 2 ^ F.fractionBits =
        (2 * e + 1) * 2 ^ F.fractionBits + 2 ^ F.fractionBits := by ring
    omega
  have hunits : F.units (F.infinity - 1) = q * 2 ^ (2 * e + 1) := by
    rw [hgreatest, units_significand F (by omega) (.inr (by omega))]
  have hnext : F.units (F.infinity - 1 + 1) = (q + 1) * 2 ^ (2 * e + 1) := by
    rw [hgreatest, add_assoc, units_significand_le F (by omega) (.inr (by omega))]
  have hcast : (2 * 2 ^ F.fractionBits : ℚ) = q + 1 := by exact_mod_cast hq
  have hbound : F.overflowBound = (2 * (q + 1) - 1) / (q + 1) * 2 ^ (e + 1) := by
    unfold overflowBound
    rw [hmax, pow_succ', hcast]
    field_simp
  have hscale' : (2 ^ F.scale * 2 : ℚ) = 2 ^ e * (q + 1) := by
    rw [hscale, pow_add, ← hcast]
    ring
  unfold midpoint
  rw [hunits, hnext, hbound]
  push_cast
  field_simp
  linear_combination (2 * (q + 1) - 1 : ℚ) * 2 ^ (e + 1) * hscale'

theorem abs_sub_le_of_le_midpoint {u w x : ℚ} (huw : u ≤ w) (hx : 2 * x ≤ u + w) :
    |u - x| ≤ |w - x| := by
  rw [abs_of_nonneg (by linarith : 0 ≤ w - x), abs_le]
  constructor <;> linarith

theorem abs_sub_le_of_midpoint_le {u w x : ℚ} (hwu : w ≤ u) (hx : u + w ≤ 2 * x) :
    |u - x| ≤ |w - x| := by
  rw [abs_of_nonpos (by linarith : w - x ≤ 0), abs_le]
  constructor <;> linarith

/-- Only numbers half way between two others are equally far from both. -/
theorem add_eq_of_abs_sub_eq {u w x : ℚ} (hne : w ≠ u) (h : |w - x| = |u - x|) :
    u + w = 2 * x := by
  rcases abs_eq_abs.mp h with heq | heq
  · exact absurd (by linarith) hne
  · linarith

section Rounds
variable {x : ℚ} {m : ℕ}

theorem Encloses.below (h : F.Encloses x m) {j : ℕ} (hj : j < m) :
    (F.units m + F.units j : ℚ) ≤ 2 * x ∧ ((F.units m + F.units j : ℚ) = 2 * x → Even m) := by
  obtain ⟨i, rfl⟩ : ∃ i, m = i + 1 := Nat.exists_eq_succ_of_ne_zero (by omega)
  obtain ⟨hle, htie⟩ := h.lower i i.lt_succ_self
  have hmono : (F.units j : ℚ) ≤ F.units i := by
    exact_mod_cast F.units_strictMono.monotone (Nat.lt_succ_iff.mp hj)
  unfold midpoint at hle htie
  exact ⟨by linarith, fun heq => htie (by linarith)⟩

theorem Encloses.above (h : F.Encloses x m) (hm : m < F.infinity) {j : ℕ} (hj : m < j) :
    2 * x ≤ (F.units m + F.units j : ℚ) ∧ ((F.units m + F.units j : ℚ) = 2 * x → Even m) := by
  obtain ⟨hle, htie⟩ := h.upper m le_rfl hm
  have hmono : (F.units (m + 1) : ℚ) ≤ F.units j := by
    exact_mod_cast F.units_strictMono.monotone (Nat.succ_le_of_lt hj)
  unfold midpoint at hle htie
  exact ⟨by linarith, fun heq => htie (by linarith)⟩

/-- The last midpoint decides for infinity, since infinity is even. -/
theorem Encloses.eq_infinity_iff (hF : 0 < F.fractionBits) (hpos : 0 < F.infinity)
    (h : F.Encloses x m) : m = F.infinity ↔ F.midpoint (F.infinity - 1) ≤ x := by
  constructor
  · rintro rfl
    exact (h.lower _ (by omega)).1
  · intro hx
    by_contra hne
    have hlt : m < F.infinity := lt_of_le_of_ne h.le_infinity hne
    obtain ⟨hle, htie⟩ := h.upper (F.infinity - 1) (by omega) (by omega)
    rcases (show m ≤ F.infinity - 1 by omega).lt_or_eq with hfar | hlast
    · have hfirst := (h.upper m le_rfl hlt).1
      have hmono := F.midpoint_strictMono hfar
      linarith
    · have heven : Even m := htie (le_antisymm hle hx)
      have hsucc : m + 1 = F.infinity := by omega
      exact Nat.not_even_iff_odd.mpr heven.add_one (hsucc ▸ even_infinity hF)

theorem abs_value_sub (hF : F.Regular) (j : ℕ) (x : ℚ) :
    |F.value j - x| * 2 ^ F.scale = |F.units j - x * 2 ^ F.scale| := by
  have hpos : (0 : ℚ) < 2 ^ F.scale := by positivity
  rw [value_eq hF, ← abs_of_pos hpos, ← abs_mul, abs_of_pos hpos, sub_mul, div_mul_cancel₀ _ hpos.ne']

/-- A number between the midpoints around a magnitude is nearest to it. -/
theorem Encloses.rounds (hF : F.Regular) (h : F.Encloses (x * 2 ^ F.scale) m) : F.Rounds x m := by
  have hpos : (0 : ℚ) < 2 ^ F.scale := by positivity
  refine ⟨h.le_infinity, ?_, fun hm j hj => ?_, fun hm j hj hne heq => ?_⟩
  · rw [h.eq_infinity_iff hF.fraction hF.infinity_pos, ← overflowBound_eq hF,
      mul_le_mul_iff_left₀ hpos]
  · refine le_of_mul_le_mul_right ?_ hpos
    rw [abs_value_sub hF, abs_value_sub hF]
    rcases lt_trichotomy j m with hjm | rfl | hmj
    · have hmono : (F.units j : ℚ) ≤ F.units m := by exact_mod_cast (F.units_strictMono hjm).le
      exact abs_sub_le_of_midpoint_le hmono (h.below hjm).1
    · exact le_rfl
    · have hmono : (F.units m : ℚ) ≤ F.units j := by exact_mod_cast (F.units_strictMono hmj).le
      exact abs_sub_le_of_le_midpoint hmono (h.above hm hmj).1
  · have hscaled := congrArg (· * (2 : ℚ) ^ F.scale) heq
    simp only [abs_value_sub hF] at hscaled
    have hunits : (F.units j : ℚ) ≠ F.units m := by
      exact_mod_cast F.units_strictMono.injective.ne hne
    have hsum := add_eq_of_abs_sub_eq hunits hscaled
    rcases lt_or_gt_of_ne hne with hjm | hmj
    · exact (h.below hjm).2 hsum
    · exact (h.above hm hmj).2 hsum

/-- Of two even magnitudes equally near, the one between them would be nearer. -/
theorem Rounds.le (hF : F.Regular) {m' : ℕ} (h : F.Rounds x m) (h' : F.Rounds x m') : m' ≤ m := by
  by_contra hgt
  have hlt : m < m' := not_le.mp hgt
  have hm : m < F.infinity := hlt.trans_le h'.le_infinity
  have hm' : m' < F.infinity := by
    refine lt_of_le_of_ne h'.le_infinity fun heq => hm.ne ?_
    exact h.eq_infinity_iff.mpr (h'.eq_infinity_iff.mp heq)
  have heq : |F.value m' - x| = |F.value m - x| :=
    le_antisymm (h'.nearest hm' m hm) (h.nearest hm m' hm')
  have heven := h.even hm m' hm' hlt.ne' heq
  have heven' := h'.even hm' m hm hlt.ne heq.symm
  have hnext : m + 1 < m' := by
    refine lt_of_le_of_ne (Nat.succ_le_of_lt hlt) fun hsucc => ?_
    exact Nat.not_even_iff_odd.mpr heven.add_one (hsucc ▸ heven')
  have hvalue : StrictMono F.value := fun i j hij => by
    rw [value_eq hF, value_eq hF, div_lt_div_iff_of_pos_right (by positivity)]
    exact_mod_cast F.units_strictMono hij
  have hbelow := hvalue m.lt_succ_self
  have habove := hvalue hnext
  have hsum := add_eq_of_abs_sub_eq (hvalue hlt).ne' heq
  have hbetween : |F.value (m + 1) - x| < |F.value m - x| := by
    rw [abs_of_nonpos (by linarith : F.value m - x ≤ 0), abs_lt]
    constructor <;> linarith
  exact not_le.mpr hbetween (h.nearest hm (m + 1) (hnext.trans hm'))

/-- A number is rounded in one way only. -/
theorem Rounds.unique (hF : F.Regular) {m' : ℕ} (h : F.Rounds x m) (h' : F.Rounds x m') : m = m' :=
  le_antisymm (h'.le hF h) (h.le hF h')

theorem rounds_nearest (hF : F.Regular) (num : ℕ) {den : ℕ} (hden : 0 < den) :
    F.Rounds (num / den) (F.nearest num den) := by
  apply Encloses.rounds hF
  have hx : (num / den * 2 ^ F.scale : ℚ) = num * 2 ^ F.scale / den := by ring
  rw [hx]
  exact encloses_nearest hF.fraction num hden

end Rounds

end Format
end ScalarEval.Ieee
