import Mathlib
import ScalarEval.Proofs.Ieee.DoubleRounding
import ScalarEval.Ieee.Arithmetic

/-! Exact results of single arithmetic among the midpoints of singles. A product or a quotient of
significands of 24 bits keeps clear of them because both sides are short. A sum may be long, but
then one operand is so small that the sum stays near a single and away from all midpoints. -/
namespace ScalarEval.Ieee
namespace Format
variable {F : Format} {x v : ℚ} {m j : ℕ}

/-- Different integers are at least one apart, and a short one is far from a long one. -/
theorem separates_natCast {u w : ℕ} (h : w < 2 ^ (F.fractionBits + 1) ∨ u < 2 ^ F.fractionBits) :
    F.Separates u w := by
  intro hnear
  by_contra hne
  have hpos : (1 : ℚ) ≤ 2 ^ F.fractionBits := one_le_pow₀ (by norm_num)
  have hone : (1 : ℚ) ≤ |(u : ℚ) - w| := by
    have hint : (u : ℤ) - w ≠ 0 := sub_ne_zero.mpr (by exact_mod_cast hne)
    exact_mod_cast Int.one_le_abs hint
  have hlong : (2 ^ (F.fractionBits + 1) : ℚ) ≤ w :=
    (le_mul_of_one_le_left (by positivity) hone).trans hnear
  rcases h with hw | hu
  · have hw' : (w : ℚ) < 2 ^ (F.fractionBits + 1) := by exact_mod_cast hw
    linarith
  · have hu' : (u : ℚ) < 2 ^ F.fractionBits := by exact_mod_cast hu
    rw [pow_succ] at hlong hnear
    have hhalf : (w : ℚ) / 2 < |(u : ℚ) - w| := by
      have habs := neg_le_abs ((u : ℚ) - w)
      linarith
    have hscaled := mul_lt_mul_of_pos_right hhalf
      (show (0 : ℚ) < 2 ^ F.fractionBits * 2 by positivity)
    have hlarge : (w : ℚ) * 1 ≤ w * 2 ^ F.fractionBits :=
      mul_le_mul_of_nonneg_left hpos (by positivity)
    linarith

/-- Short multiples of powers of two are equal or far apart. -/
theorem separates_mul_two_pow {a b k l : ℕ} (ha : a < 2 ^ F.fractionBits)
    (hb : b < 2 ^ F.fractionBits) :
    F.Separates (a * 2 ^ k) (b * 2 ^ l) := by
  rcases le_total k l with hkl | hlk
  · obtain ⟨i, rfl⟩ := Nat.exists_eq_add_of_le hkl
    have hv : (b * 2 ^ (k + i) : ℚ) = (b * 2 ^ i : ℕ) * 2 ^ k := by
      push_cast
      ring
    rw [hv, separates_mul (by positivity)]
    exact separates_natCast (.inr ha)
  · obtain ⟨i, rfl⟩ := Nat.exists_eq_add_of_le hlk
    have hx : (a * 2 ^ (l + i) : ℚ) = (a * 2 ^ i : ℕ) * 2 ^ l := by
      push_cast
      ring
    rw [hx, separates_mul (by positivity)]
    exact separates_natCast (.inl (hb.trans (Nat.pow_lt_pow_right (by norm_num) (Nat.lt_succ_self _))))

/-- A magnitude is at least a quarter of its step away from all midpoints. The step below the least
magnitude of a binade is half of that above it. -/
theorem step_le_abs_sub_midpoint (F : Format) (m j : ℕ) :
    (2 ^ (m / 2 ^ F.fractionBits - 1) : ℚ) ≤ 4 * |(F.units m : ℚ) - F.midpoint j| := by
  have hp : 0 < 2 ^ F.fractionBits := by positivity
  have hpos : (0 : ℚ) < 2 ^ (m / 2 ^ F.fractionBits - 1) := by positivity
  have hsucc : ∀ i, (F.units (i + 1) : ℚ) = F.units i + 2 ^ (i / 2 ^ F.fractionBits - 1) :=
    fun i => by exact_mod_cast F.units_succ i
  rcases le_or_gt m j with hmj | hjm
  · have hmono := F.midpoint_strictMono.monotone hmj
    have hself := neg_le_abs ((F.units m : ℚ) - F.midpoint j)
    have hm := hsucc m
    unfold Format.midpoint at hmono hself ⊢
    linarith
  · obtain ⟨i, rfl⟩ : ∃ i, m = i + 1 := Nat.exists_eq_succ_of_ne_zero (by omega)
    have hmono := F.midpoint_strictMono.monotone (Nat.lt_succ_iff.mp hjm)
    have hself := le_abs_self ((F.units (i + 1) : ℚ) - F.midpoint j)
    have hi := hsucc i
    have hstep : (2 ^ ((i + 1) / 2 ^ F.fractionBits - 1) : ℚ) ≤
        2 * 2 ^ (i / 2 ^ F.fractionBits - 1) := by
      rw [← pow_succ']
      refine pow_le_pow_right₀ (by norm_num) ?_
      have hdiv : (i + 1) / 2 ^ F.fractionBits ≤ i / 2 ^ F.fractionBits + 1 := by
        rw [← Nat.add_div_right _ hp]
        exact Nat.div_le_div_right (by omega)
      omega
    unfold Format.midpoint at hmono hself ⊢
    linarith

theorem units_lt_step (F : Format) (m : ℕ) :
    F.units m < 2 * 2 ^ F.fractionBits * 2 ^ (m / 2 ^ F.fractionBits - 1) := by
  obtain ⟨b, q, rfl, hq, hn⟩ := F.exists_significand m
  rw [units_significand F hq hn, div_significand F hq hn]
  exact Nat.mul_lt_mul_of_pos_right hq (by positivity)

/-- Near a magnitude there are no midpoints, so that a format of four more bits loses none. -/
theorem separates_midpoint_of_near {G : Format} (hG : F.fractionBits + 4 ≤ G.fractionBits) (m j : ℕ)
    (hx : 16 * |x - F.units m| ≤ 2 ^ (m / 2 ^ F.fractionBits - 1)) :
    G.Separates x (F.midpoint j) := by
  intro hclose
  exfalso
  have hfar := F.step_le_abs_sub_midpoint m j
  have hunits : (F.units m : ℚ) <
      2 * 2 ^ F.fractionBits * 2 ^ (m / 2 ^ F.fractionBits - 1) := by
    exact_mod_cast F.units_lt_step m
  have hstep : (0 : ℚ) < 2 ^ (m / 2 ^ F.fractionBits - 1) := by positivity
  have hbits : (16 * 2 ^ F.fractionBits * 2 : ℚ) ≤ 2 ^ (G.fractionBits + 1) := by
    calc
      (16 * 2 ^ F.fractionBits * 2 : ℚ) = 2 ^ (F.fractionBits + 4 + 1) := by ring
      _ ≤ 2 ^ (G.fractionBits + 1) := pow_le_pow_right₀ (by norm_num) (by omega)
  have hfull : (1 : ℚ) ≤ 2 ^ F.fractionBits := one_le_pow₀ (by norm_num)
  generalize (2 ^ (m / 2 ^ F.fractionBits - 1) : ℚ) = s at hx hfar hunits hstep
  have htriangle := abs_sub_le (F.units m : ℚ) x (F.midpoint j)
  rw [abs_sub_comm _ x] at htriangle
  -- Three sixteenths of a step is more than `G` blurs at the size of `x`.
  have hapart : 3 * s ≤ 16 * |x - F.midpoint j| := by linarith
  have hscaled : 3 * s * (16 * 2 ^ F.fractionBits * 2) ≤ 16 * F.midpoint j :=
    calc
      3 * s * (16 * 2 ^ F.fractionBits * 2) ≤
          16 * |x - F.midpoint j| * 2 ^ (G.fractionBits + 1) :=
        mul_le_mul hapart hbits (by positivity) (by positivity)
      _ ≤ 16 * F.midpoint j := by linarith
  have hone : |x - F.midpoint j| * 2 ≤ |x - F.midpoint j| * 2 ^ (G.fractionBits + 1) :=
    mul_le_mul_of_nonneg_left (by linarith) (abs_nonneg _)
  have hbound := neg_abs_le (x - F.midpoint j)
  have hvalue := le_abs_self (x - F.units m)
  have hfull' : s * 1 ≤ s * 2 ^ F.fractionBits := mul_le_mul_of_nonneg_left hfull hstep.le
  linarith

end Format

open Format

/-- A multiple of a power of two over a divisor that is one too, both short enough. -/
theorem separates_midpoint_of_short {j : ℕ} (hj : j < binary32.infinity) {x : ℚ} {a n k l : ℕ}
    (ha : a < 2 ^ 52) (hn : 0 < n) (hn' : n < 2 ^ 27) (hx : x * (n * 2 ^ l) = a * 2 ^ k) :
    binary64.Separates x (binary32.midpoint j) := by
  obtain ⟨b, c, -, -, hc, hmid⟩ := exists_midpoint_eq hj
  have hn₀ : (0 : ℚ) < n := by exact_mod_cast hn
  have hleft : x * (n * 2 ^ l * 2) = a * 2 ^ (k + 1) := by
    rw [← mul_assoc, hx]
    ring
  have hright : binary32.midpoint j * (n * 2 ^ l * 2) = (c * n : ℕ) * 2 ^ (b + l) := by
    push_cast at hmid ⊢
    linear_combination (n * 2 ^ l : ℚ) * hmid
  have hshort : c * n < 2 ^ 25 * 2 ^ 27 := Nat.mul_lt_mul'' hc hn'
  rw [← separates_mul (c := n * 2 ^ l * 2) (by positivity), hleft, hright]
  exact separates_mul_two_pow ha (hshort.trans_eq (by decide))

section Operands
variable {m n : ℕ}

theorem units_single_le (hm : m < binary32.infinity) :
    binary32.units m ≤ 2 ^ (2 * binary32.scale) := by
  obtain ⟨b, q, hb, hq, -, -, hunits⟩ := exists_single_significand hm
  calc
    binary32.units m = q * 2 ^ b := hunits
    _ ≤ 2 ^ 24 * 2 ^ 253 := Nat.mul_le_mul hq.le (Nat.pow_le_pow_right (by norm_num) hb)
    _ = 2 ^ (24 + 253) := (pow_add _ _ _).symm
    _ ≤ 2 ^ (2 * binary32.scale) := pow_le_pow_right₀ (by norm_num) (by decide)

/-- Operands of exponents that are far apart: the sum stays near the greater one. -/
theorem separates_sum_of_distant {b d q r t : ℕ} (hq : q < 2 ^ 24) (hfull : b = 0 ∨ 2 ^ 23 ≤ q)
    (hr : r < 2 ^ 24) (hbd : d + 28 ≤ b) (ht : |(t : ℚ) - (q * 2 ^ b : ℕ)| = (r * 2 ^ d : ℕ)) (j : ℕ) :
    binary64.Separates t (binary32.midpoint j) := by
  have hq' : q < 2 * 2 ^ binary32.fractionBits := hq
  have hfull' : b = 0 ∨ 2 ^ binary32.fractionBits ≤ q := hfull
  apply separates_midpoint_of_near (m := b * 2 ^ binary32.fractionBits + q) (by decide)
  rw [units_significand binary32 hq' hfull', div_significand binary32 hq' hfull', ht]
  have hsmall : 16 * (r * 2 ^ d) ≤ 2 ^ b :=
    calc
      16 * (r * 2 ^ d) ≤ 16 * (2 ^ 24 * 2 ^ d) :=
        Nat.mul_le_mul_left _ (Nat.mul_le_mul_right _ hr.le)
      _ = 2 ^ (d + 28) := by ring
      _ ≤ 2 ^ b := Nat.pow_le_pow_right (by norm_num) hbd
  exact_mod_cast hsmall

/-- Operands of exponents that are close: the sum is short. -/
theorem separates_sum_of_close {d i q r t : ℕ} (hq : q < 2 ^ 24) (hr : r < 2 ^ 24) (hi : i < 28)
    (ht : t = q * 2 ^ (d + i) + r * 2 ^ d ∨ t + r * 2 ^ d = q * 2 ^ (d + i)) {j : ℕ}
    (hj : j < binary32.infinity) : binary64.Separates t (binary32.midpoint j) := by
  have hd : 0 < 2 ^ d := by positivity
  have hsplit : q * 2 ^ (d + i) = q * 2 ^ i * 2 ^ d := by
    rw [pow_add]
    ring
  have hlong : q * 2 ^ i < 2 ^ 24 * 2 ^ 27 :=
    Nat.mul_lt_mul_of_lt_of_le hq (Nat.pow_le_pow_right (by norm_num) (by omega)) (by positivity)
  obtain ⟨a, ha, rfl⟩ : ∃ a < 2 ^ 52, t = a * 2 ^ d := by
    rw [hsplit] at ht
    rcases ht with rfl | hdifference
    · exact ⟨q * 2 ^ i + r, by omega, (add_mul _ _ _).symm⟩
    · refine ⟨q * 2 ^ i - r, by omega, ?_⟩
      rw [Nat.sub_mul]
      omega
  exact separates_midpoint_of_short hj ha (k := d) (l := 0) one_pos (by norm_num)
    (by push_cast; ring)

/-- `t` is the sum or the difference of two singles, of which the second is the smaller. -/
theorem innocuous_sum (hm : m < binary32.infinity) (hnm : n ≤ m) {t : ℕ}
    (ht : t = binary32.units m + binary32.units n ∨ t + binary32.units n = binary32.units m) :
    Innocuous t (2 ^ binary32.scale) where
  pos := Nat.two_pow_pos _
  bounded := by
    have hle := units_single_le hm
    have hmono := binary32.units_strictMono.monotone hnm
    have htwo : 2 ≤ 2 ^ binary32.scale := by decide
    calc
      t ≤ 2 ^ (2 * binary32.scale) * 2 := by omega
      _ ≤ 2 ^ (2 * binary32.scale) * 2 ^ binary32.scale := Nat.mul_le_mul_left _ htwo
  separated j hj := by
    obtain ⟨b, q, -, hq, hfull, rfl, hunits⟩ := exists_single_significand hm
    obtain ⟨d, r, -, hr, hfull', rfl, hunits'⟩ := exists_single_significand (hnm.trans_lt hm)
    have hx : (t * 2 ^ binary32.scale / (2 ^ binary32.scale : ℕ) : ℚ) = t := by
      push_cast
      exact mul_div_cancel_right₀ _ (by positivity)
    rw [hx]
    rw [hunits, hunits'] at ht
    rcases lt_or_ge b (d + 28) with hclose | hdistant
    · obtain ⟨i, rfl⟩ : ∃ i, b = d + i := Nat.exists_eq_add_of_le (by omega)
      exact separates_sum_of_close hq hr (by omega) ht hj
    · refine separates_sum_of_distant hq hfull hr hdistant ?_ j
      rcases ht with hsum | hdifference
      · rw [hsum, Nat.cast_add, add_sub_cancel_left, abs_of_nonneg (by positivity)]
      · rw [← hdifference, Nat.cast_add, sub_add_cancel_left, abs_neg, abs_of_nonneg (by positivity)]

theorem innocuous_signed_sum (hm : m < binary32.infinity) (hn : n < binary32.infinity)
    (s t : Bool) : Innocuous
      (Datum.signed s (binary32.units m) + Datum.signed t (binary32.units n)).natAbs
      (2 ^ binary32.scale) := by
  wlog hnm : n ≤ m generalizing m n s t with hswap
  · rw [add_comm]
    exact hswap hn hm t s (by omega)
  have hmono := binary32.units_strictMono.monotone hnm
  refine innocuous_sum hm hnm ?_
  unfold Datum.signed
  cases s <;> cases t <;> simp only [if_true, if_false, Bool.false_eq_true] <;> omega

theorem innocuous_product (hm : m < binary32.infinity) (hn : n < binary32.infinity) :
    Innocuous (binary32.units m * binary32.units n)
      (2 ^ binary32.scale * 2 ^ binary32.scale) where
  pos := Nat.mul_pos (Nat.two_pow_pos _) (Nat.two_pow_pos _)
  bounded := by
    calc
      binary32.units m * binary32.units n ≤ 2 ^ (2 * binary32.scale) * 2 ^ (2 * binary32.scale) :=
        Nat.mul_le_mul (units_single_le hm) (units_single_le hn)
      _ = 2 ^ (2 * binary32.scale) * (2 ^ binary32.scale * 2 ^ binary32.scale) := by
        rw [two_mul, pow_add]
  separated j hj := by
    obtain ⟨b, q, -, hq, -, -, hunits⟩ := exists_single_significand hm
    obtain ⟨d, r, -, hr, -, -, hunits'⟩ := exists_single_significand hn
    have hshort : q * r < 2 ^ 24 * 2 ^ 24 := Nat.mul_lt_mul'' hq hr
    refine separates_midpoint_of_short hj (a := q * r) (k := b + d) (l := binary32.scale)
      (hshort.trans (by norm_num)) one_pos (by norm_num) ?_
    rw [hunits, hunits']
    push_cast
    field_simp
    ring

theorem innocuous_quotient (hm : m < binary32.infinity) (hn : n < binary32.infinity)
    (hpos : 0 < binary32.units n) : Innocuous (binary32.units m) (binary32.units n) where
  pos := hpos
  bounded := (units_single_le hm).trans (Nat.le_mul_of_pos_right _ hpos)
  separated j hj := by
    obtain ⟨b, q, -, hq, -, -, hunits⟩ := exists_single_significand hm
    obtain ⟨d, r, -, hr, -, -, hunits'⟩ := exists_single_significand hn
    have hr₀ : 0 < r := Nat.pos_of_ne_zero fun h => by simp [hunits', h] at hpos
    refine separates_midpoint_of_short hj (a := q) (n := r) (k := b + binary32.scale) (l := d)
      (hq.trans (by norm_num)) hr₀ (hr.trans (by norm_num)) ?_
    rw [hunits, hunits']
    push_cast
    field_simp
    ring

end Operands

end ScalarEval.Ieee
