import Mathlib
import ScalarEval.Proofs.Division
import ScalarEval.Proofs.FloatArithmetic
import ScalarEval.Proofs.FloatOrder

/-! Remainders at the floating kinds. Both operands count units of their format, so their remainder
is that of two integers: it is stored without rounding, whatever the quotient is. -/
namespace ScalarEval

open Ieee (binary32 binary64)
open Ieee.Format

section Denominator
variable (a b : ℤ) {c : ℚ}

/-- Numbers over one denominator have the quotient of their numerators. -/
theorem remainder_div (hc : 0 < c) :
    a / c - b / c * truncate (a / c / (b / c)) = (a.tmod b : ℤ) / c := by
  rw [div_div_div_cancel_right₀ hc.ne', truncate_div, Int.tmod_def]
  push_cast
  ring

variable {b}

theorem abs_tmod_div_lt (hb : b ≠ 0) (hc : 0 < c) : |(a.tmod b : ℤ) / c| < |b / c| := by
  rw [abs_div, abs_div, div_lt_div_iff_of_pos_right (abs_pos.mpr hc.ne')]
  exact_mod_cast (isRemainder_tmod a hb).abs_lt

end Denominator

namespace Ieee

theorem Datum.signed_mod (s t : Bool) (m n : ℕ) :
    signed s (m % n) = (signed s m).tmod (signed t n) := by
  cases s <;> cases t <;> simp [signed, Int.tmod_eq_emod_of_nonneg]

namespace Format
variable {F : Format} {p q : ℕ} {x y : ℚ}

/-- The remainder of two patterns, in its format. Bits above the sign of a dividend that is given
back are dropped. -/
structure IsRemainder (F : Format) (p q w : ℕ) : Prop where
  nan_iff : F.isNaN w = true ↔
    F.isNaN p = true ∨ F.isNaN q = true ∨ F.IsInfinite p ∨ F.HasValue q 0
  finite (x y : ℚ) : F.HasValue p x → F.HasValue q y → y ≠ 0 →
    F.HasValue w (x - y * truncate (x / y)) ∧ |x - y * truncate (x / y)| < |y| ∧
      F.isNegative w = F.isNegative p
  infinite (x : ℚ) : F.HasValue p x → F.IsInfinite q → w = p % (2 * F.signBit)

theorem rem_finite (hF : F.Regular) (hp : F.HasValue p x) (hq : F.HasValue q y) (hy : y ≠ 0) :
    F.HasValue (F.rem p q) (x - y * truncate (x / y)) ∧ |x - y * truncate (x / y)| < |y| ∧
      F.isNegative (F.rem p q) = F.isNegative p := by
  obtain ⟨hpfinite, rfl⟩ := hasValue_iff.mp hp
  obtain ⟨hqfinite, rfl⟩ := hasValue_iff.mp hq
  have hunits := (rational_ne_zero_iff hF).mp hy
  have hscale : (0 : ℚ) < 2 ^ F.scale := by positivity
  have hsigned : Datum.signed (F.isNegative q) (F.units (F.magnitude q)) ≠ 0 := by
    rwa [← Int.natAbs_ne_zero, Datum.natAbs_signed]
  obtain ⟨h, hmod, hle, -, hrem⟩ :=
    remData_finite hpfinite.le hunits (F.isNegative p) (F.isNegative q)
  have hpattern : F.rem p q = F.pattern (F.isNegative p) h := by
    rw [rem, decode_finite hpfinite, decode_finite hqfinite, hrem]
  have hfinite : h < F.infinity := hle.trans_lt hpfinite
  have hfit : h < F.signBit := hfinite.trans F.infinity_lt_signBit
  rw [hpattern, isNegative_pattern hfit, hasValue_iff, magnitude_pattern hfit, rational_eq hF,
    rational_eq hF p, rational_eq hF q, magnitude_pattern hfit, isNegative_pattern hfit, hmod,
    Datum.signed_mod _ (F.isNegative q), remainder_div _ _ hscale]
  exact ⟨⟨hfinite, rfl⟩, abs_tmod_div_lt _ hsigned hscale, rfl⟩

theorem rem_infinite (hp : F.HasValue p x) (hq : F.IsInfinite q) :
    F.rem p q = p % (2 * F.signBit) := by
  have hfinite := (hasValue_iff.mp hp).1
  rw [rem, decode_finite hfinite, decode_eq_infinite_iff.mpr ⟨hq, rfl⟩]
  simp only [remData, ofRatio_units hfinite.le, pattern_fields]

theorem isRemainder_rem (hF : F.Regular) (p q : ℕ) : F.IsRemainder p q (F.rem p q) where
  nan_iff := Arithmetic.isNaN_atFormat hF .rem p q
  finite _ _ := rem_finite hF
  infinite _ := rem_infinite

end Format
end Ieee

namespace Evaluate
variable {k : Kind} {F : Ieee.Format} {l r : Value}

/-- The double computed from the operands denotes the remainder too, so storing it rounds nothing. -/
theorem float_remainder_exact (hk : k.format? = some F) (h : l.alloc = r.alloc) :
    ∃ w : BitVec 64, (binary (.arithmetic .rem) ⟨l, k⟩ ⟨r, k⟩).outcome = .ok ⟨.ofBits w, false⟩ ∧
      F.IsRemainder l.bits.toNat r.bits.toNat w.toNat ∧
      F.denoted? w.toNat =
        binary64.denoted? (Arithmetic.rem.onDoubles (k.toDouble l.bits) (k.toDouble r.bits)) := by
  have hF := Kind.regular_of_format? hk
  have hpattern :=
    Kind.toNat_ofNat_pattern hk (Arithmetic.rem.atFormat_lt hF l.bits.toNat r.bits.toNat)
  refine ⟨_, outcome_floating hk .rem h, ?_, ?_⟩
  · rw [hpattern]
    exact isRemainder_rem hF _ _
  · rw [hpattern]
    obtain ⟨rfl, rfl⟩ | ⟨rfl, rfl⟩ := Kind.format?_eq_some_iff.mp hk
    · have hrem := (Ieee.widened_decode l.bits.toNat).remData_eq (Ieee.widened_decode r.bits.toNat)
      refine (Ieee.denoted?_widen _).symm.trans ?_
      exact congrArg binary64.denoted? hrem.1.symm
    · rfl

/-- The most negative `f32` by eleven units leaves ten of them, under a quotient of 274 bits. -/
theorem float_remainder_exact_long_quotient_f32 :
    Kind.f32.format? = some binary32 ∧
      (binary (.arithmetic .rem) ⟨.ofBits 0xff7fffff, .f32⟩ ⟨.ofBits 0xb, .f32⟩).outcome =
        .ok ⟨.ofBits 0x8000000a, false⟩ ∧
      binary32.IsRemainder 0xff7fffff 0xb 0x8000000a ∧
      binary32.denoted? 0x8000000a = binary64.denoted?
        (Arithmetic.rem.onDoubles (Kind.f32.toDouble 0xff7fffff) (Kind.f32.toDouble 0xb)) := by
  have hvalue : (binary (.arithmetic .rem) ⟨.ofBits 0xff7fffff, .f32⟩
      ⟨.ofBits 0xb, .f32⟩).outcome = .ok ⟨.ofBits 0x8000000a, false⟩ := by
    decide +kernel
  obtain ⟨w, hw, hremainder, hdenoted⟩ := float_remainder_exact (k := .f32)
    (l := .ofBits 0xff7fffff) (r := .ofBits 0xb) rfl rfl
  rw [hvalue] at hw
  cases hw
  exact ⟨rfl, hvalue, hremainder, hdenoted⟩

end Evaluate
end ScalarEval
