import Mathlib
import ScalarEval.Proofs.Ending
import ScalarEval.Proofs.Wrapping

/-! What operators do with words. Operands of one allocation are evaluated by their words and
kinds alone; operands of two allocations are never read. -/
namespace ScalarEval

namespace BinaryOp

def isShift : BinaryOp → Bool
  | .shift _ => true
  | _ => false

def isArithmetic : BinaryOp → Bool
  | .arithmetic _ => true
  | _ => false

/-- The operators that a zero divisor stops at integer kinds. -/
def divides : BinaryOp → Bool
  | .arithmetic a => a.divides
  | _ => false

def isOrdering : BinaryOp → Bool
  | .comparison c => c.isOrdering
  | _ => false

end BinaryOp

/-- The exact shift of an integer: a product, or a quotient rounded down. -/
def Shift.exact : Shift → ℤ → ℕ → ℤ
  | left, x, n => x * 2 ^ n
  | right, x, n => x / 2 ^ n

/-- Patterns are tested from above alone. -/
theorem readBool_of_le_one {n : ℤ} (h : n ≤ 1) : readBool n = .ok (decide (n = 1)) := by
  rw [readBool, if_neg (not_lt.mpr h), Bool.beq_eq_decide_eq]

theorem readBool_of_one_lt {n : ℤ} (h : 1 < n) : readBool n = .error (.invalidBoolean n) :=
  if_pos h

namespace Evaluate

/-- Binary operators on words of two kinds, `none` where the operator is not implemented. -/
def onWords? (op : BinaryOp) (lk rk : Kind) (l r : BitVec 64) : Option (Except Cause Result) :=
  match op with
  | .shift s =>
    if lk.isInteger then
      some (.ok ⟨.ofInt (s.exact (lk.wrap l.toNat) (r.toNat % lk.width)) lk, false⟩)
    else some (.error .violation)
  | .comparison c =>
    if lk = rk then some (.ok ⟨.ofBool (c.holds (order lk l r)), false⟩) else none
  | .bitwise b => if lk = rk then some (.ok ⟨.ofBits (b.onWords l r), false⟩) else none
  | .arithmetic a =>
    if lk ≠ rk then none
    else if lk.isFloating then some (.ok (floatArithmetic a lk l r))
    else if !lk.isInteger then none
    else if a.divides ∧ lk.wrap r.toNat = 0 then some (.error .divisionByZero)
    else some (.ok ⟨.ofInt (a.exact (lk.wrap l.toNat) (lk.wrap r.toNat)) lk,
      !lk.fits (a.measured (lk.wrap l.toNat) (lk.wrap r.toNat))⟩)

section
variable {k : Kind}

theorem onWords?_arithmetic (hk : k.isInteger = true) (op : Arithmetic) (l r : BitVec 64) :
    onWords? (.arithmetic op) k k l r =
      some (if op.divides ∧ k.wrap r.toNat = 0 then .error .divisionByZero
        else .ok ⟨.ofInt (op.exact (k.wrap l.toNat) (k.wrap r.toNat)) k,
          !k.fits (op.measured (k.wrap l.toNat) (k.wrap r.toNat))⟩) := by
  have hf := Kind.isFloating_eq_false hk
  simp only [onWords?, hf, hk, ne_eq, not_true_eq_false, if_false, Bool.false_eq_true,
    Bool.not_true]
  split_ifs <;> rfl

theorem onWords?_floating (hk : k.isFloating = true) (op : Arithmetic) (l r : BitVec 64) :
    onWords? (.arithmetic op) k k l r = some (.ok (floatArithmetic op k l r)) := by
  simp [onWords?, hk]

theorem onWords?_arithmetic_eq_none (hi : k.isInteger = false) (hf : k.isFloating = false)
    (op : Arithmetic) (l r : BitVec 64) : onWords? (.arithmetic op) k k l r = none := by
  simp [onWords?, hi, hf]

end

/-- Unary operators on words, `none` where the operator is not implemented. -/
def onWord? (op : UnaryOp) (k : Kind) (w : BitVec 64) : Option (Except Cause Value) :=
  match op with
  | .not =>
    if k = .bool then
      some (if w.toNat ≤ 1 then .ok (.ofBool (w.toNat ≠ 1)) else .error .violation)
    else if k.isInteger then some (.ok (.ofInt (-k.wrap w.toNat - 1) k))
    else none
  | .neg =>
    if k.isSignedInteger then some (.ok (.ofInt (-k.wrap w.toNat) k))
    else if k = .f32 then some (.ok (.ofBits ((w &&& 0xffffffff) ^^^ 0x80000000)))
    else if k = .f64 then some (.ok (.ofBits (w ^^^ 0x8000000000000000)))
    else none

/-- Operands of two allocations are told from one another only by which of them point. -/
def unrelatedEnding (op : BinaryOp) (leftPoints rightPoints : Bool) : Except Cause Value :=
  match op with
  | .comparison .eq => .ok (.ofBool false)
  | .comparison .ne => .ok (.ofBool true)
  | .comparison _ => .error .invalidPointerArithmetic
  | _ => if leftPoints = rightPoints then .error .violation else .error .readPointerAsBytes

/-- A report on a missing operator that lacks a text of its operands ends as if the input were at
fault, whichever operand it is. -/
theorem ending_unimplementedBinary_eq (op : BinaryOp) (l r : Operand) :
    (unimplementedBinary op l r : Evaluation Result).ending =
      .error (if l.describe.isOk && r.describe.isOk then .unimplemented else .input) := by
  unfold unimplementedBinary
  cases l.describe with
  | error e => rfl
  | ok s => cases r.describe <;> rfl

theorem ending_unimplementedBinary (op : BinaryOp) {l r : Operand} (hl : l.value.HasText)
    (hr : r.value.HasText) :
    (unimplementedBinary op l r : Evaluation Result).ending = .error .unimplemented := by
  obtain ⟨s, hs⟩ := Operand.describe_eq_ok hl
  obtain ⟨t, ht⟩ := Operand.describe_eq_ok hr
  rw [ending_unimplementedBinary_eq, hs, ht]
  rfl

theorem ending_unimplementedUnary_eq (op : UnaryOp) (o : Operand) :
    (unimplementedUnary op o : Evaluation Value).ending =
      .error (if o.describe.isOk then .unimplemented else .input) := by
  unfold unimplementedUnary
  cases o.describe <;> rfl

theorem ending_unimplementedUnary (op : UnaryOp) {o : Operand} (ho : o.value.HasText) :
    (unimplementedUnary op o : Evaluation Value).ending = .error .unimplemented := by
  obtain ⟨s, hs⟩ := Operand.describe_eq_ok ho
  rw [ending_unimplementedUnary_eq, hs]
  rfl

theorem ending_shift (op : Shift) (l r : Operand) :
    (shift op l r).ending =
      if l.kind.isInteger then
        .ok ⟨.ofInt (op.exact (l.value.read l.kind) (r.value.bits.toNat % l.kind.width)) l.kind,
          false⟩
      else .error .violation := by
  unfold shift
  split
  next h =>
    have hf := Kind.isFloating_eq_false h
    have hamount : min (r.value.bits.toNat % l.kind.width) 64 =
        r.value.bits.toNat % l.kind.width := by
      have := Nat.mod_lt r.value.bits.toNat l.kind.width_pos
      have := l.kind.width_le
      omega
    simp only [integerShift, Kind.integerView, hf, hamount]
    cases op <;> simp [Evaluation.ofViolation, Except.map, Shift.exact, Value.read]
  next h => rfl

theorem ending_integerArithmetic (op : Arithmetic) {k : Kind} (hk : k.isInteger = true)
    (l r : ℤ) :
    (integerArithmetic op k l r).ending =
      if op.divides ∧ k.wrap r = 0 then .error .divisionByZero
      else .ok ⟨.ofInt (op.exact (k.wrap l) (k.wrap r)) k,
        !k.fits (op.measured (k.wrap l) (k.wrap r))⟩ := by
  unfold integerArithmetic
  simp only [hk, Bool.not_true, Bool.false_eq_true, if_false]
  split_ifs <;> rfl

/-- Below the first test of allocations an operator reads nothing but words and kinds. -/
theorem ending_binary_related (op : BinaryOp) {l r : Operand}
    (h : l.value.alloc = r.value.alloc) :
    (binary op l r).ending =
      (onWords? op l.kind r.kind l.value.bits r.value.bits).getD
        (unimplementedBinary op l r).ending := by
  obtain ⟨lv, lk⟩ := l
  obtain ⟨rv, rk⟩ := r
  simp only at h
  unfold binary
  simp only [h, ne_eq, not_true_eq_false, if_false]
  cases op with
  | shift s =>
    rw [ending_shift]
    simp only [onWords?, Value.read]
    split <;> rfl
  | comparison _ | bitwise _ =>
    simp only [onWords?]
    split <;> rfl
  | arithmetic a =>
    by_cases hk : lk = rk
    · subst hk
      simp only [binaryAt, if_true]
      cases hc : lk.category with
      | floating =>
        have hf : lk.isFloating = true := by simp [Kind.isFloating, hc]
        rw [onWords?_floating hf]
        rfl
      | integer =>
        have hi : lk.isInteger = true := by simp [Kind.isInteger, hc]
        rw [onWords?_arithmetic hi]
        exact ending_integerArithmetic a hi _ _
      | boolean | pointer =>
        have hi : lk.isInteger = false := by simp [Kind.isInteger, hc]
        have hf : lk.isFloating = false := by simp [Kind.isFloating, hc]
        rw [onWords?_arithmetic_eq_none hi hf]
        rfl
    · simp [onWords?, hk]

theorem ending_unrelated_eq {op : BinaryOp} (h : op.isComparison = false) (l r : Pointer) :
    (unrelated op l r).ending =
      .error (if l.pointsToAlloc ≠ r.pointsToAlloc then .readPointerAsBytes
        else if l.text.isOk && r.text.isOk then .violation else .input) := by
  cases op with
  | comparison c => cases h
  | arithmetic _ | bitwise _ | shift _ =>
    simp only [unrelated]
    split
    · rfl
    · cases l.text with
      | error e => rfl
      | ok s => cases r.text <;> rfl

theorem ending_unrelated (op : BinaryOp) {l r : Value} (hl : l.HasText) (hr : r.HasText) :
    (unrelated op l.toPointer r.toPointer).ending =
      unrelatedEnding op l.isPointer r.isPointer := by
  obtain ⟨s, hs⟩ := Value.text_toPointer hl
  obtain ⟨t, ht⟩ := Value.text_toPointer hr
  have hp : (l.toPointer.pointsToAlloc ≠ r.toPointer.pointsToAlloc) =
      ¬ l.isPointer = r.isPointer := rfl
  cases op with
  | comparison c => cases c <;> rfl
  | arithmetic _ | bitwise _ | shift _ =>
    rw [ending_unrelated_eq rfl, hs, ht]
    simp only [unrelatedEnding, hp, ite_not]
    split <;> rfl

theorem ending_unrelated_ordering {c : Comparison} (h : c.isOrdering = true) (l r : Pointer) :
    (unrelated (.comparison c) l r).ending = .error .invalidPointerArithmetic := by
  cases c with
  | eq | ne => cases h
  | lt | le | gt | ge => exact Evaluation.ending_reject _ _

theorem unrelated_eq_ok {op : BinaryOp} {l r : Pointer} {v : Value}
    (h : (unrelated op l r).ending = .ok v) : op.isComparison = true ∧ ∃ b, v = .ofBool b := by
  cases op with
  | comparison c =>
    cases c with
    | eq => exact ⟨rfl, false, (Except.ok.inj h).symm⟩
    | ne => exact ⟨rfl, true, (Except.ok.inj h).symm⟩
    | lt | le | gt | ge => cases h
  | arithmetic _ | bitwise _ | shift _ =>
    rw [ending_unrelated_eq rfl] at h
    cases h

theorem ending_binary_unrelated (op : BinaryOp) {l r : Operand}
    (h : l.value.alloc ≠ r.value.alloc) :
    (binary op l r).ending =
      (unrelated op l.value.toPointer r.value.toPointer).ending.map (⟨·, false⟩) := by
  unfold binary
  rw [if_pos h, Evaluation.ending_bind]
  rfl

/-- A genuine pointer beside plain data is refused without regard to kinds and texts. -/
theorem ending_binary_mixed {op : BinaryOp} (hop : op.isComparison = false) {l r : Operand}
    (h : l.value.isPointer ≠ r.value.isPointer) :
    (binary op l r).ending = .error .readPointerAsBytes := by
  have ha : l.value.alloc ≠ r.value.alloc := fun ha => h (congrArg Option.isSome ha)
  have hp : l.value.toPointer.pointsToAlloc ≠ r.value.toPointer.pointsToAlloc := h
  rw [ending_binary_unrelated op ha, ending_unrelated_eq hop, if_pos hp]
  rfl

theorem ending_binary (op : BinaryOp) {l r : Operand} (hl : l.value.HasText)
    (hr : r.value.HasText) :
    (binary op l r).ending =
      if l.value.alloc = r.value.alloc then
        (onWords? op l.kind r.kind l.value.bits r.value.bits).getD (.error .unimplemented)
      else
        (unrelatedEnding op l.value.isPointer r.value.isPointer).map (⟨·, false⟩) := by
  split
  next h => rw [ending_binary_related op h, ending_unimplementedBinary op hl hr]
  next h => rw [ending_binary_unrelated op h, ending_unrelated op hl hr]

/-- A result is that of the words, or a truth value about operands in two allocations. -/
theorem binary_eq_ok {op : BinaryOp} {l r : Operand} {x : Result}
    (h : (binary op l r).ending = .ok x) :
    onWords? op l.kind r.kind l.value.bits r.value.bits = some (.ok x) ∨
      op.isComparison = true ∧ ∃ b, x = ⟨.ofBool b, false⟩ := by
  by_cases ha : l.value.alloc = r.value.alloc
  · left
    rw [ending_binary_related op ha] at h
    cases hw : onWords? op l.kind r.kind l.value.bits r.value.bits with
    | none =>
      rw [hw, ending_unimplementedBinary_eq] at h
      cases h
    | some e =>
      rw [hw] at h
      exact congrArg some h
  · right
    rw [ending_binary_unrelated op ha] at h
    cases hu : (unrelated op l.value.toPointer r.value.toPointer).ending with
    | error c => simp [hu, Except.map] at h
    | ok v =>
      obtain ⟨hc, b, rfl⟩ := unrelated_eq_ok hu
      rw [hu] at h
      exact ⟨hc, b, (Except.ok.inj h).symm⟩

theorem ending_unary (op : UnaryOp) (o : Operand) :
    (unary op o).ending =
      (onWord? op o.kind o.value.bits).getD (unimplementedUnary op o).ending := by
  obtain ⟨v, k⟩ := o
  cases op with
  | not =>
    cases k with
    | bool =>
      change (Evaluation.ofViolation (readBool v.bits.toNat) >>= fun b =>
        (pure (.ofBool !b) : Evaluation Value)).ending = _
      rw [Evaluation.ending_bind]
      by_cases hw : v.bits.toNat ≤ 1
      · rw [readBool_of_le_one (by omega)]
        simp [onWord?, hw, Evaluation.ofViolation, Except.bind]
      · rw [readBool_of_one_lt (by omega)]
        simp [onWord?, hw, Evaluation.ofViolation, Except.bind, Failure.cause]
    | _ => rfl
  | neg => cases k <;> rfl

end Evaluate
end ScalarEval
