import Mathlib
import ScalarEval.Proofs.FloatRounding
import ScalarEval.Proofs.Ieee.Negation
import ScalarEval.Proofs.Ieee.Singles

/-! Floating arithmetic on all operands. Whatever the patterns of its operands are, an operator
succeeds, and stores what it is in the format of its kind, although singles are computed as
doubles. -/
namespace ScalarEval

open Ieee (binary32 binary64)
open Ieee.Format

namespace Arithmetic
variable {F : Ieee.Format}

/-- Singles are computed as doubles to the same effect, also where they are no numbers. -/
theorem narrow_atFormat (op : Arithmetic) (p q : ℕ) :
    Ieee.narrow (op.atFormat binary64 (Ieee.widen p) (Ieee.widen q)) = op.atFormat binary32 p q := by
  have hp := Ieee.widened_decode p
  have hq := Ieee.widened_decode q
  cases op with
  | add => exact hp.narrow_addData hq
  | sub => exact hp.narrow_addData hq.negate
  | mul => exact hp.narrow_mulData hq
  | div => exact hp.narrow_divData hq
  | rem =>
    obtain ⟨hdouble, hsingle⟩ := hp.remData_eq hq
    exact (congrArg Ieee.narrow hdouble).trans hsingle

/-- Nothing is set above the width of the format. -/
theorem atFormat_lt (hF : F.Regular) (op : Arithmetic) (p q : ℕ) :
    op.atFormat F p q < 2 * F.signBit := by
  cases op with
  | add | sub => exact addData_lt hF _ _
  | mul => exact mulData_lt hF _ _
  | div => exact divData_lt hF _ _
  | rem => exact remData_lt hF _ _

/-- Operands, none of them a NaN, on which an operator has no result. -/
def Invalid : Arithmetic → Ieee.Format → ℕ → ℕ → Prop
  | add, F, p, q => F.IsInfinite p ∧ F.IsInfinite q ∧ F.isNegative p ≠ F.isNegative q
  | sub, F, p, q => F.IsInfinite p ∧ F.IsInfinite q ∧ F.isNegative p = F.isNegative q
  | mul, F, p, q => F.HasValue p 0 ∧ F.IsInfinite q ∨ F.IsInfinite p ∧ F.HasValue q 0
  | div, F, p, q => F.HasValue p 0 ∧ F.HasValue q 0 ∨ F.IsInfinite p ∧ F.IsInfinite q
  | rem, F, p, q => F.IsInfinite p ∨ F.HasValue q 0

theorem isNaN_atFormat (hF : F.Regular) (op : Arithmetic) (p q : ℕ) :
    F.isNaN (op.atFormat F p q) = true ↔
      F.isNaN p = true ∨ F.isNaN q = true ∨ op.Invalid F p q := by
  cases op with
  | add =>
    refine (isNaN_addData hF _ _).trans ?_
    simp only [decode_eq_nan_iff, decode_eq_infinite_iff, Invalid]
    cases F.isNegative p <;> cases F.isNegative q <;> simp
  | sub =>
    refine (isNaN_addData hF _ _).trans ?_
    simp only [Ieee.Datum.negate_eq_nan_iff, Ieee.Datum.negate_eq_infinite_iff, decode_eq_nan_iff,
      decode_eq_infinite_iff, Invalid]
    cases F.isNegative p <;> cases F.isNegative q <;> simp
  | mul =>
    refine (isNaN_mulData hF _ _).trans ?_
    simp [decode_eq_nan_iff, decode_eq_infinite_iff, decode_eq_zero_iff hF, Invalid]
  | div =>
    refine (isNaN_divData hF _ _).trans ?_
    simp [decode_eq_nan_iff, decode_eq_infinite_iff, decode_eq_zero_iff hF, Invalid]
  | rem =>
    refine (isNaN_remData hF _ _).trans ?_
    simp [decode_eq_nan_iff, decode_eq_infinite_iff, decode_eq_zero_iff hF, Invalid]

end Arithmetic

namespace Kind
variable {k : Kind} {F : Ieee.Format}

theorem ofDouble_onDoubles_eq (hk : k.format? = some F) (op : Arithmetic) (l r : BitVec 64) :
    k.ofDouble (op.onDoubles (k.toDouble l) (k.toDouble r)) =
      .ofNat 64 (op.atFormat F l.toNat r.toNat) := by
  rw [op.onDoubles_eq]
  obtain ⟨rfl, rfl⟩ | ⟨rfl, rfl⟩ := format?_eq_some_iff.mp hk
  · exact congrArg (BitVec.ofNat 64) (op.narrow_atFormat l.toNat r.toNat)
  · rfl

/-- Patterns are stored as they are. -/
theorem toNat_ofNat_pattern (hk : k.format? = some F) {p : ℕ} (hp : p < 2 * F.signBit) :
    (BitVec.ofNat 64 p).toNat = p := by
  rw [BitVec.toNat_ofNat]
  exact Nat.mod_eq_of_lt (hp.trans_le (signBit_le_of_format? hk))

end Kind

namespace Evaluate
variable {k : Kind} {F : Ieee.Format} {l r : Value}

theorem outcome_floating (hk : k.format? = some F) (op : Arithmetic) (h : l.alloc = r.alloc) :
    (binary (.arithmetic op) ⟨l, k⟩ ⟨r, k⟩).outcome =
      .ok ⟨.ofBits (.ofNat 64 (op.atFormat F l.bits.toNat r.bits.toNat)), false⟩ := by
  rw [← Kind.ofDouble_onDoubles_eq hk]
  exact outcome_of_onWords h (onWords?_floating (Kind.isFloating_of_format? hk) op _ _)

end Evaluate
end ScalarEval
