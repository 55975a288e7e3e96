import Mathlib
import ScalarEval.Proofs.Ieee.Nearest
import ScalarEval.Proofs.Ieee.Separation

/-! Operations on finite patterns. Each rounds the exact result of its operands once, and the sign
of a zero is that of the operation. Singles may be computed as doubles, since no exact result of
theirs is attracted by a midpoint. -/
namespace ScalarEval.Ieee

namespace Datum

theorem signed_mul_natCast (s : Bool) (m c : ℕ) : signed s (m * c) = signed s m * c := by
  cases s <;> simp [signed]

theorem signed_mul_signed (s t : Bool) (m n : ℕ) :
    signed s m * signed t n = signed (s ^^ t) (m * n) := by
  cases s <;> cases t <;> simp [signed]

theorem signed_not (s : Bool) (m : ℕ) : signed (!s) m = -signed s m := by
  cases s <;> simp [signed]

@[simp] theorem natAbs_signed (s : Bool) (m : ℕ) : (signed s m).natAbs = m := by
  cases s <;> simp [signed]

theorem signed_natAbs {s : Bool} {z : ℤ} (h : z ≠ 0 → s = decide (z < 0)) :
    signed s z.natAbs = z := by
  rcases eq_or_ne z 0 with rfl | hz
  · cases s <;> rfl
  · rw [h hz]
    unfold signed
    by_cases hneg : z < 0 <;> simp only [hneg, decide_true, decide_false, if_true,
      Bool.false_eq_true, if_false] <;> omega

end Datum

open Datum

namespace Format
variable {F : Format} {x : ℚ} {p q : ℕ}

/-- The value of a finite pattern. -/
def rational (F : Format) (p : ℕ) : ℚ :=
  if F.isNegative p then -F.value (F.magnitude p) else F.value (F.magnitude p)

theorem rational_eq (hF : F.Regular) (p : ℕ) :
    F.rational p = signed (F.isNegative p) (F.units (F.magnitude p)) / 2 ^ F.scale := by
  unfold rational signed
  rw [value_eq hF]
  split_ifs
  · push_cast
    rw [neg_div]
  · push_cast
    rfl

theorem rational_ne_zero_iff (hF : F.Regular) :
    F.rational p ≠ 0 ↔ F.units (F.magnitude p) ≠ 0 := by
  have hpos : (2 : ℚ) ^ F.scale ≠ 0 := by positivity
  rw [rational_eq hF, div_ne_zero_iff, and_iff_left hpos, Int.cast_ne_zero, ← Int.natAbs_ne_zero,
    natAbs_signed]

/-- The pattern to which a number is rounded: its magnitude is nearest, and its sign is that of the
number, or `zero` for the number zero. -/
structure CorrectlyRounded (F : Format) (x : ℚ) (zero : Bool) (p : ℕ) : Prop where
  lt : p < 2 * F.signBit
  magnitude : F.Rounds |x| (F.magnitude p)
  sign : F.isNegative p = if x = 0 then zero else decide (x < 0)

theorem CorrectlyRounded.unique (hF : F.Regular) {zero : Bool} (h : F.CorrectlyRounded x zero p)
    (h' : F.CorrectlyRounded x zero q) : p = q := by
  obtain ⟨s, m, hm, rfl⟩ := exists_pattern h.lt
  obtain ⟨t, n, hn, rfl⟩ := exists_pattern h'.lt
  have hmagnitude := h.magnitude.unique hF h'.magnitude
  have hsign := h.sign.trans h'.sign.symm
  rw [magnitude_pattern hm, magnitude_pattern hn] at hmagnitude
  rw [isNegative_pattern hm, isNegative_pattern hn] at hsign
  rw [hmagnitude, hsign]

theorem ofRatio_correctlyRounded (hF : F.Regular) {s zero : Bool} {num den : ℕ} (hden : 0 < den)
    (hzero : num = 0 → s = zero) :
    F.CorrectlyRounded (signed s num / den) zero (F.ofRatio s num den) := by
  have hden' : (0 : ℚ) < den := by exact_mod_cast hden
  have hlt : F.nearest num den < F.signBit :=
    (F.nearest_le_infinity num den).trans_lt F.infinity_lt_signBit
  refine ⟨F.ofRatio_lt s num den, ?_, ?_⟩
  · have habs : |(signed s num / den : ℚ)| = num / den := by
      rw [abs_div, abs_of_pos hden', ← Int.cast_abs, Int.abs_eq_natAbs, natAbs_signed]
      rfl
    rw [habs, ofRatio, magnitude_pattern hlt]
    exact rounds_nearest hF num hden
  · rw [ofRatio, isNegative_pattern hlt]
    rcases Nat.eq_zero_or_pos num with rfl | hpos
    · have h0 : (signed s 0 / den : ℚ) = 0 := by cases s <;> simp [signed]
      rw [if_pos h0, hzero rfl]
    · have hpos' : (0 : ℚ) < num := by exact_mod_cast hpos
      have hquotient : (0 : ℚ) < num / den := div_pos hpos' hden'
      cases s with
      | false =>
        have hx : (signed false num / den : ℚ) = num / den := by simp [signed]
        rw [hx, if_neg hquotient.ne', decide_eq_false (not_lt.mpr hquotient.le)]
      | true =>
        have hx : (signed true num / den : ℚ) = -(num / den) := by simp [signed, neg_div]
        rw [hx, if_neg (neg_ne_zero.mpr hquotient.ne'), decide_eq_true (neg_lt_zero.mpr hquotient)]

section Exact
variable (hF : F.Regular) (s t : Bool) (m n : ℕ)

theorem addData_finite (F : Format) : F.addData (.finite s m) (.finite t n) =
    F.ofRatio (if signed s m + signed t n = 0 then s && t else decide (signed s m + signed t n < 0))
      (signed s m + signed t n).natAbs (2 ^ F.scale) := by
  unfold addData
  dsimp only
  split_ifs with hzero
  · rw [hzero, ofRatio, Int.natAbs_zero, nearest_eq_zero (by simp)]
  · rfl

include hF

theorem addData_correctlyRounded :
    F.CorrectlyRounded (signed s m / 2 ^ F.scale + signed t n / 2 ^ F.scale) (s && t)
      (F.addData (.finite s m) (.finite t n)) := by
  rw [addData_finite]
  generalize hsign : (if signed s m + signed t n = 0 then s && t
    else decide (signed s m + signed t n < 0)) = sign
  have htotal : signed sign (signed s m + signed t n).natAbs = signed s m + signed t n :=
    signed_natAbs fun hne => by rw [← hsign, if_neg hne]
  have hx : (signed s m / 2 ^ F.scale + signed t n / 2 ^ F.scale : ℚ) =
      signed sign (signed s m + signed t n).natAbs / (2 ^ F.scale : ℕ) := by
    rw [htotal]
    push_cast
    ring
  rw [hx]
  refine ofRatio_correctlyRounded hF (by positivity) fun hzero => ?_
  rw [← hsign, if_pos (Int.natAbs_eq_zero.mp hzero)]

theorem mulData_correctlyRounded :
    F.CorrectlyRounded (signed s m / 2 ^ F.scale * (signed t n / 2 ^ F.scale)) (s ^^ t)
      (F.mulData (.finite s m) (.finite t n)) := by
  have hx : (signed s m / 2 ^ F.scale * (signed t n / 2 ^ F.scale) : ℚ) =
      signed (s ^^ t) (m * n) / (2 ^ F.scale * 2 ^ F.scale : ℕ) := by
    rw [← signed_mul_signed]
    push_cast
    ring
  rw [hx]
  exact ofRatio_correctlyRounded hF (by positivity) fun _ => rfl

theorem divData_correctlyRounded (hn : n ≠ 0) :
    F.CorrectlyRounded (signed s m / 2 ^ F.scale / (signed t n / 2 ^ F.scale)) (s ^^ t)
      (F.divData (.finite s m) (.finite t n)) := by
  have hpos : (0 : ℚ) < 2 ^ F.scale := by positivity
  have hx : (signed s m / 2 ^ F.scale / (signed t n / 2 ^ F.scale) : ℚ) = signed (s ^^ t) m / n := by
    rw [div_div_div_cancel_right₀ hpos.ne']
    cases s <;> cases t <;> simp [signed, neg_div, div_neg]
  rw [hx]
  unfold divData
  simp only [if_neg hn]
  exact ofRatio_correctlyRounded hF (Nat.pos_of_ne_zero hn) fun _ => rfl

end Exact

end Format

open Format

section Singles
variable {p q m n : ℕ}

theorem decode_widen (hp : binary32.magnitude p < binary32.infinity) :
    binary64.decode (widen p) =
      .finite (binary32.isNegative p) (binary32.units (binary32.magnitude p) * finer) := by
  obtain ⟨m', hm', hunits⟩ := exists_double_units_eq hp
  unfold widen
  rw [convert_finite (decode_finite hp) hm'.le hunits, decode_pattern_finite hm']
  rw [two_pow_scale_binary64, mul_comm (2 ^ binary32.scale), ← mul_assoc] at hunits
  rw [Nat.eq_of_mul_eq_mul_right (Nat.two_pow_pos _) hunits]

/-- What a single and the double that equals it are decoded to. -/
inductive Widened : Datum → Datum → Prop
  | nan : Widened .nan .nan
  | infinite (s : Bool) : Widened (.infinite s) (.infinite s)
  | finite (s : Bool) {m : ℕ} (hm : m < binary32.infinity) :
    Widened (.finite s (binary32.units m)) (.finite s (binary32.units m * finer))

theorem widened_decode (p : ℕ) : Widened (binary32.decode p) (binary64.decode (widen p)) := by
  rcases lt_trichotomy (binary32.magnitude p) binary32.infinity with hfinite | hinfinite | hnan
  · rw [decode_widen hfinite, decode_finite hfinite]
    exact .finite _ hfinite
  · have hwiden : binary64.decode (widen p) = .infinite (binary32.isNegative p) := by
      unfold widen convert
      rw [decode_infinite hinfinite]
      exact binary64.decode_pattern_infinity _
    rw [hwiden, decode_infinite hinfinite]
    exact .infinite _
  · have hsingle : binary32.decode p = .nan := decode_eq_nan_iff.mpr (decide_eq_true hnan)
    have hdouble : binary64.decode (widen p) = .nan := convert_nan (by decide) hsingle
    rw [hsingle, hdouble]
    exact .nan

variable (hm : m < binary32.infinity) (hn : n < binary32.infinity) (s t : Bool)
include hm hn

theorem narrow_addData :
    narrow (binary64.addData (.finite s (binary32.units m * finer))
        (.finite t (binary32.units n * finer))) =
      binary32.addData (.finite s (binary32.units m)) (.finite t (binary32.units n)) := by
  have hpos : (0 : ℤ) < finer := by exact_mod_cast finer_pos
  rw [addData_finite, addData_finite]
  generalize htotal : signed s (binary32.units m) + signed t (binary32.units n) = total
  have hfiner : signed s (binary32.units m * finer) + signed t (binary32.units n * finer) =
      total * finer := by
    rw [signed_mul_natCast, signed_mul_natCast, ← add_mul, htotal]
  have hzero : total * finer = 0 ↔ total = 0 := by
    rw [mul_eq_zero, or_iff_left hpos.ne']
  have hneg : total * finer < 0 ↔ total < 0 := by
    rw [← not_le, ← not_le, not_iff_not, mul_nonneg_iff_of_pos_right hpos]
  rw [hfiner, Int.natAbs_mul, Int.natAbs_natCast, two_pow_scale_binary64,
    ofRatio_mul _ _ _ _ finer_pos]
  simp only [hzero, hneg]
  have hsum := innocuous_signed_sum hm hn s t
  rw [htotal] at hsum
  exact hsum.narrow_ofRatio _

theorem narrow_mulData :
    narrow (binary64.mulData (.finite s (binary32.units m * finer))
        (.finite t (binary32.units n * finer))) =
      binary32.mulData (.finite s (binary32.units m)) (.finite t (binary32.units n)) := by
  have hnum : binary32.units m * finer * (binary32.units n * finer) =
      binary32.units m * binary32.units n * (finer * finer) := by ring
  have hden : 2 ^ binary32.scale * finer * (2 ^ binary32.scale * finer) =
      2 ^ binary32.scale * 2 ^ binary32.scale * (finer * finer) := by ring
  unfold mulData
  dsimp only
  rw [two_pow_scale_binary64, hnum, hden, ofRatio_mul _ _ _ _ (Nat.mul_pos finer_pos finer_pos)]
  exact (innocuous_product hm hn).narrow_ofRatio _

theorem narrow_divData (hpos : 0 < binary32.units n) :
    narrow (binary64.divData (.finite s (binary32.units m * finer))
        (.finite t (binary32.units n * finer))) =
      binary32.divData (.finite s (binary32.units m)) (.finite t (binary32.units n)) := by
  have hpos' : binary32.units n * finer ≠ 0 := (Nat.mul_pos hpos finer_pos).ne'
  unfold divData
  simp only [if_neg hpos', if_neg hpos.ne']
  rw [ofRatio_mul _ _ _ _ finer_pos]
  exact (innocuous_quotient hm hn hpos).narrow_ofRatio _

end Singles

end ScalarEval.Ieee
