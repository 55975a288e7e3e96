import Mathlib
import ScalarEval.Proofs.Dispatch

/-! Which failures arise, and where. Operators on operands with texts are rejected or violated and
fail in no other way. -/
namespace ScalarEval

namespace Evaluate
variable {op : BinaryOp} {l r : Operand}

/-- Only pointers can lie in two allocations and be told from plain data alike. -/
theorem isPointer_eq_iff {v w : Value} (h : v.alloc ≠ w.alloc) :
    v.isPointer = w.isPointer ↔ v.isPointer = true ∧ w.isPointer = true := by
  unfold Value.isPointer
  cases hv : v.alloc with
  | none =>
    cases hw : w.alloc with
    | none => exact absurd (hv.trans hw.symm) h
    | some b => simp
  | some a => cases w.alloc <;> simp

/-- Where operands have texts, an operator that fails is rejected or violated. -/
theorem cause_of_binary {c : Cause} (hl : l.value.HasText) (hr : r.value.HasText)
    (h : (binary op l r).ending = .error c) : c ≠ .input ∧ c ≠ .absent := by
  rw [ending_binary op hl hr] at h
  split at h
  next =>
    cases op with
    | shift _ | comparison _ | bitwise _ | arithmetic _ =>
      simp only [onWords?] at h
      split_ifs at h <;> cases h <;> decide
  next =>
    cases op with
    | comparison c => cases c <;> cases h <;> decide
    | shift _ | bitwise _ | arithmetic _ =>
      simp only [unrelatedEnding] at h
      split at h <;> cases h <;> decide

theorem cause_of_unary {op : UnaryOp} {o : Operand} {c : Cause} (ho : o.value.HasText)
    (h : (unary op o).ending = .error c) : c ≠ .input ∧ c ≠ .absent := by
  rw [ending_unary, ending_unimplementedUnary op ho] at h
  cases op with
  | not | neg =>
    simp only [onWord?] at h
    split_ifs at h <;> cases h <;> decide

end Evaluate
end ScalarEval
