import Mathlib
import ScalarEval.Proofs.Ieee.Rounding

/-! Midpoints of neighbouring magnitudes. Rounding to nearest compares a number with them and with
nothing else, so two numbers on the same sides of all midpoints are rounded alike. -/
namespace ScalarEval.Ieee

section HalfEven
variable {n d : ℕ}

/-- The nearest integer is at most one half away, and at one half it is even. -/
theorem halfEven_nearest (n : ℕ) (hd : 0 < d) :
    2 * n ≤ (2 * halfEven n d + 1) * d ∧ 2 * halfEven n d * d ≤ 2 * n + d ∧
      (2 * n = (2 * halfEven n d + 1) * d → Even (halfEven n d)) ∧
      (2 * halfEven n d * d = 2 * n + d → Even (halfEven n d)) := by
  have hdiv := Nat.div_add_mod' n d
  have hmod := Nat.mod_lt n hd
  have hsame : (2 * (n / d) + 1) * d = 2 * (n / d * d) + d := by ring
  have hnext : 2 * (n / d + 1) * d = 2 * (n / d * d) + 2 * d := by ring
  have hnext' : (2 * (n / d + 1) + 1) * d = 2 * (n / d * d) + 3 * d := by ring
  have hsame' : 2 * (n / d) * d = 2 * (n / d * d) := by ring
  unfold halfEven
  dsimp only
  split_ifs with hlow hhigh
  · rw [hsame, hsame']
    refine ⟨by omega, by omega, by omega, by omega⟩
  · rw [hnext, hnext']
    refine ⟨by omega, by omega, by omega, by omega⟩
  · rcases Nat.mod_two_eq_zero_or_one (n / d) with hp | hp <;> rw [hp]
    · rw [add_zero, hsame, hsame']
      have heven : Even (n / d) := Nat.even_iff.mpr hp
      exact ⟨by omega, by omega, fun _ => heven, fun _ => heven⟩
    · rw [hnext, hnext']
      have heven : Even (n / d + 1) := by
        rw [Nat.even_iff]
        omega
      exact ⟨by omega, by omega, fun _ => heven, fun _ => heven⟩

end HalfEven

namespace Format
variable {F : Format} {m : ℕ}

/-- A significand that was rounded up to the next binade is that of the binade. -/
theorem units_significand_le (F : Format) {b q : ℕ} (hq : q ≤ 2 * 2 ^ F.fractionBits)
    (hn : b = 0 ∨ 2 ^ F.fractionBits ≤ q) :
    F.units (b * 2 ^ F.fractionBits + q) = q * 2 ^ b := by
  rcases hq.lt_or_eq with hlt | rfl
  · exact units_significand F hlt hn
  · have hp : 0 < 2 ^ F.fractionBits := by positivity
    have hcarry : b * 2 ^ F.fractionBits + 2 * 2 ^ F.fractionBits =
        (b + 1) * 2 ^ F.fractionBits + 2 ^ F.fractionBits := by ring
    rw [hcarry, units_significand F (by omega) (.inr le_rfl)]
    ring

theorem div_significand (F : Format) {b q : ℕ} (hq : q < 2 * 2 ^ F.fractionBits)
    (hn : b = 0 ∨ 2 ^ F.fractionBits ≤ q) :
    (b * 2 ^ F.fractionBits + q) / 2 ^ F.fractionBits - 1 = b := by
  have hp : 0 < 2 ^ F.fractionBits := by positivity
  rw [Nat.add_comm, Nat.add_mul_div_right _ _ hp]
  rcases hn with rfl | hn
  · have := Nat.div_lt_of_lt_mul (mul_comm 2 _ ▸ hq)
    omega
  · rw [Nat.div_eq_of_lt_le (k := 1) (by omega) (by omega)]
    omega

/-- Neighbouring magnitudes differ by the step of their binade. -/
theorem units_succ (F : Format) (m : ℕ) :
    F.units (m + 1) = F.units m + 2 ^ (m / 2 ^ F.fractionBits - 1) := by
  have hp : 0 < 2 ^ F.fractionBits := by positivity
  obtain ⟨b, q, rfl, hq, hn⟩ := F.exists_significand m
  rw [units_significand F hq hn, add_assoc, units_significand_le F hq (by omega),
    div_significand F hq hn]
  exact Nat.succ_mul q _

theorem units_strictMono (F : Format) : StrictMono F.units := by
  apply strictMono_nat_of_lt_succ
  intro m
  rw [units_succ]
  exact Nat.lt_add_of_pos_right (by positivity)

/-- The number of units half way between a magnitude and the next. -/
def midpoint (F : Format) (m : ℕ) : ℚ :=
  (F.units m + F.units (m + 1)) / 2

theorem midpoint_strictMono (F : Format) : StrictMono F.midpoint := by
  apply strictMono_nat_of_lt_succ
  intro m
  have hm : (F.units m : ℚ) < F.units (m + 1) := by exact_mod_cast F.units_strictMono m.lt_succ_self
  have hm' : (F.units (m + 1) : ℚ) < F.units (m + 1 + 1) := by
    exact_mod_cast F.units_strictMono (m + 1).lt_succ_self
  unfold midpoint
  linarith

theorem units_lt_midpoint (F : Format) (m : ℕ) : (F.units m : ℚ) < F.midpoint m := by
  have hm : (F.units m : ℚ) < F.units (m + 1) := by exact_mod_cast F.units_strictMono m.lt_succ_self
  unfold midpoint
  linarith

theorem midpoint_lt_units (F : Format) {j : ℕ} (h : j < m) : F.midpoint j < F.units m := by
  have hm : (F.units j : ℚ) < F.units (j + 1) := by exact_mod_cast F.units_strictMono j.lt_succ_self
  have hj : (F.units (j + 1) : ℚ) ≤ F.units m := by
    exact_mod_cast F.units_strictMono.monotone (Nat.succ_le_of_lt h)
  unfold midpoint
  linarith

/-- No midpoint separates a number of units from a magnitude, and it lies on one only where the
magnitude is even. Above infinity there are no midpoints. -/
structure Encloses (F : Format) (x : ℚ) (m : ℕ) : Prop where
  le_infinity : m ≤ F.infinity
  lower : ∀ j < m, F.midpoint j ≤ x ∧ (F.midpoint j = x → Even m)
  upper : ∀ j, m ≤ j → j < F.infinity → x ≤ F.midpoint j ∧ (x = F.midpoint j → Even m)

theorem Encloses.le {x : ℚ} {m m' : ℕ} (h : F.Encloses x m) (h' : F.Encloses x m') : m' ≤ m := by
  by_contra hgt
  have hlt : m < m' := not_le.mp hgt
  have hm := h.upper m le_rfl (hlt.trans_le h'.le_infinity)
  have hm' := h'.lower m hlt
  have heq : x = F.midpoint m := le_antisymm hm.1 hm'.1
  rcases (Nat.succ_le_of_lt hlt).lt_or_eq with hfar | rfl
  · have hbetween := (h'.lower (m + 1) hfar).1
    have hstep := F.midpoint_strictMono m.lt_succ_self
    linarith
  · have heven := hm.2 heq
    exact Nat.not_even_iff_odd.mpr heven.add_one (hm'.2 heq.symm)

/-- A number is enclosed once. -/
theorem Encloses.unique {x : ℚ} {m m' : ℕ} (h : F.Encloses x m) (h' : F.Encloses x m') :
    m = m' :=
  le_antisymm (h'.le h) (h.le h')

/-- Numbers on the same sides of all midpoints are enclosed alike. -/
theorem Encloses.congr {x y : ℚ} (h : F.Encloses x m)
    (hxy : ∀ j < F.infinity, (F.midpoint j ≤ x ↔ F.midpoint j ≤ y) ∧
      (x ≤ F.midpoint j ↔ y ≤ F.midpoint j)) : F.Encloses y m where
  le_infinity := h.le_infinity
  lower j hj := by
    obtain ⟨hlow, hhigh⟩ := hxy j (hj.trans_le h.le_infinity)
    obtain ⟨hle, htie⟩ := h.lower j hj
    exact ⟨hlow.mp hle, fun heq => htie (le_antisymm hle (hhigh.mpr heq.ge))⟩
  upper j hj hi := by
    obtain ⟨hlow, hhigh⟩ := hxy j hi
    obtain ⟨hle, htie⟩ := h.upper j hj hi
    exact ⟨hhigh.mp hle, fun heq => htie (le_antisymm hle (hlow.mpr heq.ge))⟩

theorem even_two_pow_fractionBits (hF : 0 < F.fractionBits) : Even (2 ^ F.fractionBits) :=
  even_two.pow_of_ne_zero hF.ne'

theorem even_infinity (hF : 0 < F.fractionBits) : Even F.infinity :=
  (even_two_pow_fractionBits hF).mul_left _

section Nearest
variable {n d b h : ℕ}

/-- A significand near enough to `n / d` in its binade: full, unless the binade is the lowest, and
with the parity that decides ties. -/
structure Significand (F : Format) (n d b h : ℕ) : Prop where
  le : h ≤ 2 * 2 ^ F.fractionBits
  full : b = 0 ∨ 2 ^ F.fractionBits ≤ h ∧ 2 ^ F.fractionBits * (d * 2 ^ b) ≤ n
  upper : 2 * n ≤ (2 * h + 1) * (d * 2 ^ b)
  lower : 2 * h * (d * 2 ^ b) ≤ 2 * n + d * 2 ^ b
  even_of_upper : 2 * n = (2 * h + 1) * (d * 2 ^ b) → Even h
  even_of_lower : 2 * h * (d * 2 ^ b) = 2 * n + d * 2 ^ b → Even h

theorem significand_halfEven (F : Format) (n : ℕ) (hd : 0 < d) :
    F.Significand n d ((n / d).log2 - F.fractionBits)
      (halfEven n (d * 2 ^ ((n / d).log2 - F.fractionBits))) := by
  generalize hl : (n / d).log2 = l
  have hc : 0 < d * 2 ^ (l - F.fractionBits) := by positivity
  have hquotient : n / d < 2 ^ (l + 1) := hl ▸ Nat.lt_log2_self
  have hn : n < 2 * 2 ^ F.fractionBits * (d * 2 ^ (l - F.fractionBits)) := by
    have hpow : 2 ^ (l + 1) ≤ 2 * 2 ^ F.fractionBits * 2 ^ (l - F.fractionBits) := by
      rw [← pow_succ', ← pow_add]
      exact Nat.pow_le_pow_right (by norm_num) (by omega)
    calc
      n < 2 ^ (l + 1) * d := (Nat.div_lt_iff_lt_mul hd).mp hquotient
      _ ≤ 2 * 2 ^ F.fractionBits * 2 ^ (l - F.fractionBits) * d := Nat.mul_le_mul_right _ hpow
      _ = 2 * 2 ^ F.fractionBits * (d * 2 ^ (l - F.fractionBits)) := by ring
  obtain ⟨hupper, hlower, heven, heven'⟩ := halfEven_nearest n hc
  refine ⟨?_, ?_, hupper, hlower, heven, heven'⟩
  · have hdiv := (Nat.div_lt_iff_lt_mul hc).mpr hn
    rcases halfEven_eq_or n (d * 2 ^ (l - F.fractionBits)) with h | h <;> omega
  · rcases Nat.eq_zero_or_pos (l - F.fractionBits) with hzero | hpos
    · exact .inl hzero
    · right
      have hne : n / d ≠ 0 := by
        intro h0
        rw [h0, Nat.log2_zero] at hl
        omega
      have hself : 2 ^ l ≤ n / d := hl ▸ Nat.log2_self_le hne
      refine ⟨two_pow_le_halfEven (by omega) hself, ?_⟩
      calc
        2 ^ F.fractionBits * (d * 2 ^ (l - F.fractionBits)) =
            2 ^ F.fractionBits * 2 ^ (l - F.fractionBits) * d := by ring
        _ = 2 ^ l * d := by rw [← pow_add, Nat.add_sub_cancel' (by omega)]
        _ ≤ n := (Nat.le_div_iff_mul_le hd).mp hself

namespace Significand

theorem units_eq (hs : F.Significand n d b h) : F.units (b * 2 ^ F.fractionBits + h) = h * 2 ^ b :=
  units_significand_le F hs.le (hs.full.imp id And.left)

theorem le_binade (hs : F.Significand n d b h) :
    b ≤ (b * 2 ^ F.fractionBits + h) / 2 ^ F.fractionBits - 1 := by
  have hp : 0 < 2 ^ F.fractionBits := by positivity
  rcases hs.full with rfl | ⟨hfull, -⟩
  · exact Nat.zero_le _
  · have hdiv : b + 1 ≤ (b * 2 ^ F.fractionBits + h) / 2 ^ F.fractionBits := by
      rw [Nat.le_div_iff_mul_le hp, add_mul, one_mul]
      omega
    omega

theorem even_magnitude (hF : 0 < F.fractionBits) (h' : Even h) :
    Even (b * 2 ^ F.fractionBits + h) :=
  ((even_two_pow_fractionBits hF).mul_left b).add h'

theorem upper_midpoint (hs : F.Significand n d b h) (hF : 0 < F.fractionBits) (hd : 0 < d) {j : ℕ}
    (hj : b * 2 ^ F.fractionBits + h ≤ j) :
    (n / d : ℚ) ≤ F.midpoint j ∧
      ((n / d : ℚ) = F.midpoint j → Even (b * 2 ^ F.fractionBits + h)) := by
  have hd' : (0 : ℚ) < d := by exact_mod_cast hd
  have hupper : 2 * (n / d : ℚ) ≤ (2 * h + 1) * 2 ^ b := by
    rw [← mul_div_assoc, div_le_iff₀ hd', mul_assoc, mul_comm (2 ^ b : ℚ)]
    exact_mod_cast hs.upper
  have hstep : 2 ^ b ≤ 2 ^ ((b * 2 ^ F.fractionBits + h) / 2 ^ F.fractionBits - 1) :=
    Nat.pow_le_pow_right (by norm_num) hs.le_binade
  have hmid : (2 * h + 1) * 2 ^ b ≤ 2 * F.midpoint (b * 2 ^ F.fractionBits + h) := by
    unfold midpoint
    rw [units_succ, hs.units_eq]
    have hstep' : (2 ^ b : ℚ) ≤ 2 ^ ((b * 2 ^ F.fractionBits + h) / 2 ^ F.fractionBits - 1) := by
      exact_mod_cast hstep
    push_cast
    linarith
  have hmono := F.midpoint_strictMono.monotone hj
  refine ⟨by linarith, fun htie => even_magnitude hF (hs.even_of_upper ?_)⟩
  have heq : 2 * (n / d : ℚ) = (2 * h + 1) * 2 ^ b := by linarith
  rw [← mul_div_assoc, div_eq_iff hd'.ne', mul_assoc, mul_comm (2 ^ b : ℚ)] at heq
  exact_mod_cast heq

theorem lower_midpoint (hs : F.Significand n d b h) (hF : 0 < F.fractionBits) (hd : 0 < d) {j : ℕ}
    (hj : j < b * 2 ^ F.fractionBits + h) :
    F.midpoint j ≤ (n / d : ℚ) ∧
      (F.midpoint j = (n / d : ℚ) → Even (b * 2 ^ F.fractionBits + h)) := by
  have hd' : (0 : ℚ) < d := by exact_mod_cast hd
  by_cases hleast : b ≠ 0 ∧ h = 2 ^ F.fractionBits
  · -- The step below the least full significand is half of that above it.
    obtain ⟨hb, rfl⟩ := hleast
    have hfull := (hs.full.resolve_left hb).2
    have hunits : (F.units (b * 2 ^ F.fractionBits + 2 ^ F.fractionBits) : ℚ) ≤ n / d := by
      rw [hs.units_eq, le_div_iff₀ hd']
      push_cast
      rw [mul_assoc, mul_comm (2 ^ b : ℚ)]
      exact_mod_cast hfull
    have hlt := (F.midpoint_lt_units hj).trans_le hunits
    exact ⟨hlt.le, fun htie => absurd htie hlt.ne⟩
  · obtain ⟨i, rfl⟩ : ∃ i, h = i + 1 := by
      refine Nat.exists_eq_succ_of_ne_zero fun hzero => ?_
      have hp : 0 < 2 ^ F.fractionBits := by positivity
      rcases hs.full with rfl | ⟨hfull, -⟩ <;> omega
    have hbelow : F.units (b * 2 ^ F.fractionBits + i) = i * 2 ^ b := by
      have hle := hs.le
      exact units_significand_le F (by omega) (by rcases hs.full with h | ⟨h, -⟩ <;> omega)
    have hmid : 2 * F.midpoint (b * 2 ^ F.fractionBits + i) = (2 * i + 1) * 2 ^ b := by
      unfold midpoint
      rw [add_assoc, hs.units_eq, hbelow]
      push_cast
      ring
    have hlower : (2 * i + 1) * 2 ^ b ≤ 2 * (n / d : ℚ) := by
      have hcast : (2 * (i + 1) * (d * 2 ^ b) : ℚ) ≤ 2 * n + d * 2 ^ b := by
        exact_mod_cast hs.lower
      rw [← mul_div_assoc, le_div_iff₀ hd']
      linarith
    have hmono := F.midpoint_strictMono.monotone (show j ≤ b * 2 ^ F.fractionBits + i by omega)
    refine ⟨by linarith, fun htie => even_magnitude hF (hs.even_of_lower ?_)⟩
    have heq : 2 * (n / d : ℚ) = (2 * i + 1) * 2 ^ b := by linarith
    rw [← mul_div_assoc, div_eq_iff hd'.ne'] at heq
    have hcast : (2 * (i + 1) * (d * 2 ^ b) : ℚ) = 2 * n + d * 2 ^ b := by linarith
    exact_mod_cast hcast

end Significand

/-- The nearest magnitude lies between the midpoints around a ratio. -/
theorem encloses_nearest (hF : 0 < F.fractionBits) (num : ℕ) {den : ℕ} (hden : 0 < den) :
    F.Encloses (num * 2 ^ F.scale / den) (F.nearest num den) := by
  have hs := F.significand_halfEven (num * 2 ^ F.scale) hden
  have hx : (num * 2 ^ F.scale / den : ℚ) = (num * 2 ^ F.scale : ℕ) / den := by push_cast; rfl
  rw [hx]
  unfold nearest
  dsimp only
  generalize num * 2 ^ F.scale = n at hs ⊢
  generalize (n / den).log2 - F.fractionBits = b at hs ⊢
  generalize halfEven n (den * 2 ^ b) = h at hs ⊢
  rcases le_total (b * 2 ^ F.fractionBits + h) F.infinity with hfinite | hinfinite
  · rw [min_eq_left hfinite]
    exact ⟨hfinite, fun j hj => hs.lower_midpoint hF hden hj,
      fun j hj _ => hs.upper_midpoint hF hden hj⟩
  · rw [min_eq_right hinfinite]
    refine ⟨le_rfl, fun j hj => ?_, fun j hj hi => absurd hi (not_lt.mpr hj)⟩
    exact ⟨(hs.lower_midpoint hF hden (hj.trans_le hinfinite)).1, fun _ => even_infinity hF⟩

end Nearest

end Format
end ScalarEval.Ieee
