import Mathlib
import ScalarEval.Proofs.Canonical
import ScalarEval.Proofs.Integer
import ScalarEval.Proofs.Rational
import ScalarEval.Proofs.Ieee.Operation

/-! Floating arithmetic is correctly rounded: it stores the exact result of the rationals, rounded
once to the format of its kind. At `f32` too, although singles are computed as doubles and rounded
again where they are stored. -/
namespace ScalarEval

open Ieee (binary32 binary64)

namespace Arithmetic

/-- The operator on patterns of a format. -/
def atFormat : Arithmetic → Ieee.Format → ℕ → ℕ → ℕ
  | add, F => F.add
  | sub, F => F.sub
  | mul, F => F.mul
  | div, F => F.div
  | rem, F => F.rem

theorem onDoubles_eq (op : Arithmetic) : op.onDoubles = op.atFormat binary64 := by
  cases op <;> rfl

/-- The sign of an exact zero, from the signs of the operands. -/
def zeroSign : Arithmetic → Bool → Bool → Bool
  | add, s, t => s && t
  | sub, s, t => s && !t
  | mul, s, t | div, s, t => s ^^ t
  | rem, s, _ => s

section
variable {F : Ieee.Format} {op : Arithmetic} {p q : ℕ}

/-- A format rounds the exact results of its own finite patterns. -/
theorem atFormat_correctlyRounded (hF : F.Regular) (hop : op ≠ .rem)
    (hp : F.magnitude p < F.infinity) (hq : F.magnitude q < F.infinity)
    (hz : op = .div → F.rational q ≠ 0) :
    F.CorrectlyRounded (op.rational (F.rational p) (F.rational q))
      (op.zeroSign (F.isNegative p) (F.isNegative q)) (op.atFormat F p q) := by
  have hdecode := Ieee.Format.decode_finite hp
  have hdecode' := Ieee.Format.decode_finite hq
  cases op with
  | add =>
    simp only [atFormat, rational, zeroSign, Ieee.Format.add, hdecode, hdecode',
      Ieee.Format.rational_eq hF]
    exact Ieee.Format.addData_correctlyRounded hF _ _ _ _
  | sub =>
    have hx : ∀ x y : ℚ, x - y / 2 ^ F.scale = x + -y / 2 ^ F.scale := fun x y => by ring
    simp only [atFormat, rational, zeroSign, Ieee.Format.sub, hdecode, hdecode', Ieee.Datum.negate,
      Ieee.Format.rational_eq hF, hx, ← Int.cast_neg, ← Ieee.Datum.signed_not]
    exact Ieee.Format.addData_correctlyRounded hF _ _ _ _
  | mul =>
    simp only [atFormat, rational, zeroSign, Ieee.Format.mul, hdecode, hdecode',
      Ieee.Format.rational_eq hF]
    exact Ieee.Format.mulData_correctlyRounded hF _ _ _ _
  | div =>
    simp only [atFormat, rational, zeroSign, Ieee.Format.div, hdecode, hdecode',
      Ieee.Format.rational_eq hF]
    exact Ieee.Format.divData_correctlyRounded hF _ _ _ _
      ((Ieee.Format.rational_ne_zero_iff hF).mp (hz rfl))
  | rem => exact absurd rfl hop

/-- Computing singles as doubles and rounding again is computing them as singles. -/
theorem narrow_atFormat_widen (hop : op ≠ .rem) (hp : binary32.magnitude p < binary32.infinity)
    (hq : binary32.magnitude q < binary32.infinity) (hz : op = .div → binary32.rational q ≠ 0) :
    Ieee.narrow (op.atFormat binary64 (Ieee.widen p) (Ieee.widen q)) =
      op.atFormat binary32 p q := by
  have hdecode := Ieee.Format.decode_finite hp
  have hdecode' := Ieee.Format.decode_finite hq
  cases op with
  | add =>
    simp only [atFormat, Ieee.Format.add, hdecode, hdecode', Ieee.decode_widen hp,
      Ieee.decode_widen hq]
    exact Ieee.narrow_addData hp hq _ _
  | sub =>
    simp only [atFormat, Ieee.Format.sub, hdecode, hdecode', Ieee.decode_widen hp,
      Ieee.decode_widen hq, Ieee.Datum.negate]
    exact Ieee.narrow_addData hp hq _ _
  | mul =>
    simp only [atFormat, Ieee.Format.mul, hdecode, hdecode', Ieee.decode_widen hp,
      Ieee.decode_widen hq]
    exact Ieee.narrow_mulData hp hq _ _
  | div =>
    simp only [atFormat, Ieee.Format.div, hdecode, hdecode', Ieee.decode_widen hp,
      Ieee.decode_widen hq]
    have hunits := (Ieee.Format.rational_ne_zero_iff Ieee.Format.regular_binary32).mp (hz rfl)
    exact Ieee.narrow_divData hp hq _ _ (Nat.pos_of_ne_zero hunits)
  | rem => exact absurd rfl hop

end
end Arithmetic

namespace Kind
variable {k : Kind} {F : Ieee.Format}

theorem isFloating_of_format? (hk : k.format? = some F) : k.isFloating = true := by
  obtain ⟨rfl, -⟩ | ⟨rfl, -⟩ := format?_eq_some_iff.mp hk <;> rfl

theorem regular_of_format? (hk : k.format? = some F) : F.Regular := by
  obtain ⟨-, rfl⟩ | ⟨-, rfl⟩ := format?_eq_some_iff.mp hk
  · exact Ieee.Format.regular_binary32
  · exact Ieee.Format.regular_binary64

/-- Patterns fit a word. -/
theorem signBit_le_of_format? (hk : k.format? = some F) : 2 * F.signBit ≤ 2 ^ 64 := by
  rw [← two_pow_width hk]
  exact Nat.pow_le_pow_right (by norm_num) k.width_le

/-- What is stored is the operator in the format of the kind. -/
theorem ofDouble_onDoubles (hk : k.format? = some F) {op : Arithmetic} (hop : op ≠ .rem)
    {l r : BitVec 64} (hl : F.magnitude l.toNat < F.infinity)
    (hr : F.magnitude r.toNat < F.infinity) (hz : op = .div → F.rational r.toNat ≠ 0) :
    k.ofDouble (op.onDoubles (k.toDouble l) (k.toDouble r)) =
      .ofNat 64 (op.atFormat F l.toNat r.toNat) := by
  rw [op.onDoubles_eq]
  obtain ⟨rfl, rfl⟩ | ⟨rfl, rfl⟩ := format?_eq_some_iff.mp hk
  · exact congrArg (BitVec.ofNat 64) (Arithmetic.narrow_atFormat_widen hop hl hr hz)
  · rfl

end Kind

namespace Evaluate
variable {k : Kind} {F : Ieee.Format} {op : Arithmetic} {l r : Value}

/-- The one pattern that rounds the exact result is stored, and no overflow is flagged. -/
theorem float_arithmetic_rounds (hk : k.format? = some F) (hop : op ≠ .rem)
    (h : l.alloc = r.alloc) (hl : F.magnitude l.bits.toNat < F.infinity)
    (hr : F.magnitude r.bits.toNat < F.infinity)
    (hz : op = .div → F.rational r.bits.toNat ≠ 0) :
    ∃ w : BitVec 64, (binary (.arithmetic op) ⟨l, k⟩ ⟨r, k⟩).outcome = .ok ⟨.ofBits w, false⟩ ∧
      ∀ p, F.CorrectlyRounded (op.rational (F.rational l.bits.toNat) (F.rational r.bits.toNat))
        (op.zeroSign (F.isNegative l.bits.toNat) (F.isNegative r.bits.toNat)) p ↔ p = w.toNat := by
  have hF := Kind.regular_of_format? hk
  have hround := Arithmetic.atFormat_correctlyRounded hF hop hl hr hz
  have hfit := hround.lt.trans_le (Kind.signBit_le_of_format? hk)
  refine ⟨_, outcome_of_onWords h (onWords?_floating (Kind.isFloating_of_format? hk) op _ _), ?_⟩
  rw [Kind.ofDouble_onDoubles hk hop hl hr hz]
  intro p
  rw [BitVec.toNat_ofNat, Nat.mod_eq_of_lt hfit]
  exact ⟨fun hp => hp.unique hF hround, fun hp => hp ▸ hround⟩

/-- Half of the least normal `f32` but one lies between two subnormal values. Bits of a word above
the single are not read. -/
theorem float_arithmetic_rounds_subnormal_f32 :
    binary32.magnitude 0xffffffff00800001 < binary32.infinity ∧
      binary32.magnitude 0x40000000 < binary32.infinity ∧ binary32.rational 0x40000000 ≠ 0 ∧
      (binary (.arithmetic .div) ⟨.ofBits 0xffffffff00800001, .f32⟩
        ⟨.ofBits 0x40000000, .f32⟩).outcome = .ok ⟨.ofBits 0x400000, false⟩ ∧
      binary32.CorrectlyRounded
        (binary32.rational 0xffffffff00800001 / binary32.rational 0x40000000) false 0x400000 := by
  have hl : binary32.magnitude 0xffffffff00800001 < binary32.infinity := by decide
  have hr : binary32.magnitude 0x40000000 < binary32.infinity := by decide
  have hz : binary32.rational 0x40000000 ≠ 0 :=
    (Ieee.Format.rational_ne_zero_iff Ieee.Format.regular_binary32).mpr (by decide)
  have hvalue : (binary (.arithmetic .div) ⟨.ofBits 0xffffffff00800001, .f32⟩
      ⟨.ofBits 0x40000000, .f32⟩).outcome = .ok ⟨.ofBits 0x400000, false⟩ := by decide +kernel
  obtain ⟨w, hw, hrounds⟩ := float_arithmetic_rounds (k := .f32) (l := .ofBits 0xffffffff00800001)
    (r := .ofBits 0x40000000) rfl (by decide : Arithmetic.div ≠ .rem) rfl hl hr fun _ => hz
  refine ⟨hl, hr, hz, hvalue, (hrounds 0x400000).mpr ?_⟩
  rw [hvalue] at hw
  cases hw
  rfl

end Evaluate

end ScalarEval
