import Mathlib
import ScalarEval.Proofs.Dispatch

/-! Operators at integer kinds, on operands of one allocation. Each computes in unbounded
integers and stores the result once. -/
namespace ScalarEval

namespace Arithmetic
variable {op : Arithmetic}

/-- A remainder alone overflows by another integer than its exact result. -/
theorem measured_of_ne_rem (hop : op ≠ .rem) (a b : ℤ) : op.measured a b = op.exact a b := by
  cases op with
  | add | sub | mul | div => rfl
  | rem => exact absurd rfl hop

theorem measured_eq_exact (h : op.divides = false) (a b : ℤ) :
    op.measured a b = op.exact a b := by
  apply measured_of_ne_rem
  rintro rfl
  cases h

theorem not_divides_by_zero (hop : op ≠ .rem) {b : ℤ} (hb : op = .div → b ≠ 0) :
    ¬ (op.divides = true ∧ b = 0) := by
  rintro ⟨hd, hz⟩
  cases op with
  | add | sub | mul => cases hd
  | div => exact hb rfl hz
  | rem => exact hop rfl

end Arithmetic

namespace Evaluate

/-- An operator on plain words at one kind. -/
def onPlain (op : BinaryOp) (k : Kind) (l r : BitVec 64) : Evaluation Result :=
  binary op ⟨.ofBits l, k⟩ ⟨.ofBits r, k⟩

variable {k : Kind}

theorem outcome_of_onWords {op : BinaryOp} {l r : Operand} {x : Result}
    (h : l.value.alloc = r.value.alloc)
    (hw : onWords? op l.kind r.kind l.value.bits r.value.bits = some (.ok x)) :
    (binary op l r).outcome = .ok x := by
  rw [← Evaluation.ending_eq_ok_iff, ending_binary_related op h, hw]
  rfl

theorem outcome_of_onWord {op : UnaryOp} {o : Operand} {v : Value}
    (hw : onWord? op o.kind o.value.bits = some (.ok v)) : (unary op o).outcome = .ok v := by
  rw [← Evaluation.ending_eq_ok_iff, ending_unary, hw]
  rfl

theorem outcome_bitwise (op : Bitwise) (k : Kind) (l r : BitVec 64) :
    (onPlain (.bitwise op) k l r).outcome = .ok ⟨.ofBits (op.onWords l r), false⟩ :=
  outcome_of_onWords (l := ⟨.ofBits l, k⟩) (r := ⟨.ofBits r, k⟩) rfl (if_pos rfl)

theorem ending_arithmetic (hk : k.isInteger = true) (op : Arithmetic) {l r : Value}
    (h : l.alloc = r.alloc) :
    (binary (.arithmetic op) ⟨l, k⟩ ⟨r, k⟩).ending =
      if op.divides = true ∧ r.read k = 0 then .error .divisionByZero
      else .ok ⟨.ofInt (op.exact (l.read k) (r.read k)) k,
        !k.fits (op.measured (l.read k) (r.read k))⟩ := by
  rw [ending_binary_related _ h, onWords?_arithmetic hk]
  rfl

theorem outcome_arithmetic (hk : k.isInteger = true) (op : Arithmetic) {l r : Value}
    (h : l.alloc = r.alloc) (hz : ¬ (op.divides = true ∧ r.read k = 0)) :
    (binary (.arithmetic op) ⟨l, k⟩ ⟨r, k⟩).outcome =
      .ok ⟨.ofInt (op.exact (l.read k) (r.read k)) k,
        !k.fits (op.measured (l.read k) (r.read k))⟩ := by
  rw [← Evaluation.ending_eq_ok_iff, ending_arithmetic hk op h, if_neg hz]

theorem ending_eq_divisionByZero_iff (hk : k.isInteger = true) (op : Arithmetic) {l r : Value}
    (h : l.alloc = r.alloc) :
    (binary (.arithmetic op) ⟨l, k⟩ ⟨r, k⟩).ending = .error .divisionByZero ↔
      op.divides = true ∧ r.read k = 0 := by
  rw [ending_arithmetic hk op h]
  split
  next hz => exact iff_of_true rfl hz
  next hz => exact iff_of_false (by simp) hz

theorem outcome_shift (hk : k.isInteger = true) (op : Shift) {l r : Value}
    (h : l.alloc = r.alloc) (rk : Kind) :
    (binary (.shift op) ⟨l, k⟩ ⟨r, rk⟩).outcome =
      .ok ⟨.ofInt (op.exact (l.read k) (r.bits.toNat % k.width)) k, false⟩ := by
  apply outcome_of_onWords h
  simp only [onWords?, hk, if_true]
  rfl

theorem outcome_complement (hk : k.isInteger = true) (v : Value) :
    (unary .not ⟨v, k⟩).outcome = .ok (.ofInt (-v.read k - 1) k) := by
  apply outcome_of_onWord
  have hb : k ≠ .bool := by
    rintro rfl
    cases hk
  simp only [onWord?, hb, hk, if_true, if_false]
  rfl

theorem outcome_negation (hk : k.isInteger = true) (hs : k.isSigned = true) (v : Value) :
    (unary .neg ⟨v, k⟩).outcome = .ok (.ofInt (-v.read k) k) := by
  apply outcome_of_onWord
  simp only [onWord?, Kind.isSignedInteger, hk, hs, Bool.and_true, if_true]
  rfl

end Evaluate
end ScalarEval
