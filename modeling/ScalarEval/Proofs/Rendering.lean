import Mathlib
import ScalarEval.Proofs.LowBits
import ScalarEval.Proofs.NumeralLimit
import ScalarEval.Proofs.Report
import ScalarEval.Proofs.Setting

/-! Operands without a text. An allocation beyond the limit on decimal digits can be written in
hexadecimal, and is read, but has no text of its own. Wherever a failure would be reported with the
text of such an operand the input is blamed instead, and a command line refuses it as if it had not
been read. -/
namespace ScalarEval

open Text

theorem exists_boundedDecimal_iff {n : ℤ} :
    (∃ t, boundedDecimal n = .ok t) ↔ n.natAbs < 10 ^ decimalLimit := by
  unfold boundedDecimal exceedsDecimalLimit
  by_cases h : 10 ^ decimalLimit ≤ n.natAbs
  · simp [h]
  · simp [h, Nat.not_le.mp h]

namespace AllocId

theorem hasText_number_iff {n : ℤ} : (number n).HasText ↔ n.natAbs < 10 ^ decimalLimit :=
  Nat.length_toDigits_le_iff (by norm_num) (by norm_num [decimalLimit])

theorem exists_text_iff {a : AllocId} : (∃ t, a.text = .ok t) ↔ a.HasText := by
  cases a with
  | number n => exact exists_boundedDecimal_iff.trans hasText_number_iff.symm
  | name s => exact iff_of_true ⟨s, rfl⟩ trivial

end AllocId

theorem isOk_iff {ε α : Type} {x : Except ε α} : x.isOk = true ↔ ∃ a, x = .ok a := by
  cases x <;> simp [Except.isOk, Except.toBool]

namespace Operand
variable {text : String} {k : Kind} {v : Value}

theorem exists_describe_iff {o : Operand} : (∃ t, o.describe = .ok t) ↔ o.value.HasText := by
  rw [← isOk_iff, isOk_describe]
  unfold Value.HasText
  cases o.value.alloc with
  | none => simp
  | some a => simpa [isOk_iff] using AllocId.exists_text_iff

/-- The allocation that a text with a colon names, as it is written. -/
def writtenAllocation (text : String) : List Char :=
  text.toList.takeWhile (· ≠ ':')

/-- Where integers are read, a value without a text comes from an allocation beyond the limit. -/
theorem isHexadecimal_of_readInteger (h : readInteger text k = .ok v) (hv : ¬ v.HasText) :
    ':' ∈ text.toList ∧ Numeral.IsHexadecimal (writtenAllocation text) := by
  unfold readInteger at h
  dsimp only at h
  split at h
  next =>
    obtain ⟨n, -, hn⟩ := exists_of_bind_eq_ok h
    obtain rfl := Except.ok.inj hn
    exact absurd (Value.hasText_ofBits _) hv
  next rest hrest =>
    obtain ⟨a, ha, h⟩ := exists_of_bind_eq_ok h
    obtain ⟨o, -, h⟩ := exists_of_bind_eq_ok h
    obtain rfl := Except.ok.inj h
    have hlong : 10 ^ decimalLimit ≤ a.natAbs := by
      by_contra hshort
      apply hv
      rintro b ⟨⟩
      exact AllocId.hasText_number_iff.mpr (Nat.not_le.mp hshort)
    refine ⟨?_, Numeral.isHexadecimal_of_read ha hlong⟩
    by_contra hcolon
    have hnone := (dropWhile_colon hcolon []).1
    rw [List.append_nil, hrest] at hnone
    cases hnone

/-- An operand without a text was read from an allocation in hexadecimal notation. -/
theorem isHexadecimal_of_not_hasText (h : read text k = .ok v) (hv : ¬ v.HasText) :
    ':' ∈ text.toList ∧ Numeral.IsHexadecimal (writtenAllocation text) := by
  cases hc : k.category with
  | boolean =>
    obtain rfl : k = .bool := by revert hc; cases k <;> decide
    obtain ⟨b, rfl⟩ := exists_of_read_bool h
    exact absurd (Value.hasText_ofBits _) hv
  | floating =>
    obtain ⟨p, rfl⟩ := exists_of_read_floating (by simp [Kind.isFloating, hc]) h
    exact absurd (Value.hasText_ofBits _) hv
  | integer | pointer =>
    simp only [read, hc] at h
    exact isHexadecimal_of_readInteger h hv

end Operand

theorem Value.exists_text_iff {v : Value} : (∃ t, v.toPointer.text = .ok t) ↔ v.HasText := by
  refine ⟨?_, text_toPointer⟩
  rintro ⟨t, ht⟩ a ha
  obtain ⟨s, hs, -⟩ := exists_of_bind_eq_ok ht
  have halloc : v.toPointer.alloc = some a := ha
  rw [halloc] at hs
  cases a with
  | number n => exact AllocId.exists_text_iff.mp ⟨s, hs⟩
  | name s => trivial

namespace Evaluate
variable {op : BinaryOp} {l r : Operand}

theorem onWords?_eq_none_iff {lk rk : Kind} {u w : BitVec 64} :
    onWords? op lk rk u w = none ↔ op.isShift = false ∧
      (lk ≠ rk ∨ op.isArithmetic = true ∧ (lk = .bool ∨ lk = .ptr)) := by
  cases op with
  | shift s =>
    simp only [onWords?, BinaryOp.isShift]
    split <;> simp
  | comparison _ | bitwise _ => simp [onWords?, BinaryOp.isShift, BinaryOp.isArithmetic]
  | arithmetic a =>
    rw [lk.eq_bool_or_ptr_iff]
    simp only [onWords?, BinaryOp.isShift, BinaryOp.isArithmetic]
    split_ifs <;> simp_all

theorem onWords?_ne_input {lk rk : Kind} {u w : BitVec 64} :
    onWords? op lk rk u w ≠ some (.error .input) := by
  cases op with
  | shift _ | comparison _ | bitwise _ | arithmetic _ =>
    simp only [onWords?]
    split_ifs <;> simp

/-- The operators whose failure is reported with the texts of their operands: those that are not
implemented at the kinds of the operands, and those without meaning on pointers into two
allocations. -/
def ReportsOperands (op : BinaryOp) (l r : Operand) : Prop :=
  l.value.alloc = r.value.alloc ∧ op.isShift = false ∧
      (l.kind ≠ r.kind ∨ op.isArithmetic = true ∧ (l.kind = .bool ∨ l.kind = .ptr)) ∨
    l.value.alloc ≠ r.value.alloc ∧ op.isComparison = false ∧
      l.value.isPointer = true ∧ r.value.isPointer = true

def ReportsOperand (op : UnaryOp) (o : Operand) : Prop :=
  match op with
  | .not => o.kind ≠ .bool ∧ o.kind.isInteger = false
  | .neg => o.kind.isSignedInteger = false ∧ o.kind.isFloating = false

theorem ending_unimplementedBinary_eq_input_iff :
    (unimplementedBinary op l r : Evaluation Result).ending = .error .input ↔
      ¬ (l.value.HasText ∧ r.value.HasText) := by
  rw [ending_unimplementedBinary_eq, ← Operand.exists_describe_iff, ← Operand.exists_describe_iff,
    ← isOk_iff, ← isOk_iff, ← Bool.and_eq_true]
  split <;> simp_all

theorem ending_unrelated_eq_input_iff {v w : Value} (h : v.alloc ≠ w.alloc) :
    (unrelated op v.toPointer w.toPointer).ending = .error .input ↔
      op.isComparison = false ∧ (v.isPointer = true ∧ w.isPointer = true) ∧
        ¬ (v.HasText ∧ w.HasText) := by
  cases hop : op.isComparison with
  | true =>
    cases op with
    | comparison c =>
      cases c with
      | eq | ne => simp [unrelated]
      | lt | le | gt | ge => simp [unrelated, EvalError.unrelatedOrder, EvalError.cause]
    | arithmetic _ | bitwise _ | shift _ => cases hop
  | false =>
    have hp : v.toPointer.pointsToAlloc = w.toPointer.pointsToAlloc ↔
        v.isPointer = true ∧ w.isPointer = true := isPointer_eq_iff h
    rw [ending_unrelated_eq hop, ← hp, ← Value.exists_text_iff, ← Value.exists_text_iff, ← isOk_iff,
      ← isOk_iff, ← Bool.and_eq_true]
    split_ifs <;> simp_all

/-- The input is blamed for the failure of an operator where an operand lacks the text to report
it. -/
theorem ending_binary_eq_input_iff :
    (binary op l r).ending = .error .input ↔
      ReportsOperands op l r ∧ ¬ (l.value.HasText ∧ r.value.HasText) := by
  unfold ReportsOperands
  by_cases h : l.value.alloc = r.value.alloc
  · rw [ending_binary_related op h, ← onWords?_eq_none_iff (u := l.value.bits) (w := r.value.bits)]
    cases hw : onWords? op l.kind r.kind l.value.bits r.value.bits with
    | none => simpa [h] using ending_unimplementedBinary_eq_input_iff
    | some e =>
      have hne : e ≠ .error .input := fun he => onWords?_ne_input (he ▸ hw)
      simp [h, hne]
  · have hmap : ∀ e : Except Cause Value, e.map (Result.mk · false) = .error .input ↔
        e = .error .input := by
      rintro (c | v) <;> simp [Except.map]
    rw [ending_binary_unrelated op h, hmap, ending_unrelated_eq_input_iff h]
    simp [h, and_assoc]

theorem onWord?_eq_none_iff {op : UnaryOp} {o : Operand} :
    onWord? op o.kind o.value.bits = none ↔ ReportsOperand op o := by
  obtain ⟨v, k⟩ := o
  cases op with
  | not =>
    simp only [onWord?, ReportsOperand]
    split_ifs <;> simp_all
  | neg =>
    cases k <;>
      simp [onWord?, ReportsOperand, Kind.isSignedInteger, Kind.isInteger, Kind.isSigned,
        Kind.isFloating, Kind.category]

theorem onWord?_ne_input {op : UnaryOp} {k : Kind} {w : BitVec 64} :
    onWord? op k w ≠ some (.error .input) := by
  cases op with
  | not | neg =>
    simp only [onWord?]
    split_ifs <;> simp

theorem ending_unary_eq_input_iff {op : UnaryOp} {o : Operand} :
    (unary op o).ending = .error .input ↔ ReportsOperand op o ∧ ¬ o.value.HasText := by
  rw [ending_unary, ← onWord?_eq_none_iff]
  cases hw : onWord? op o.kind o.value.bits with
  | none =>
    rw [Option.getD_none, ending_unimplementedUnary_eq, ← Operand.exists_describe_iff, ← isOk_iff]
    split <;> simp_all
  | some e =>
    have hne : e ≠ .error .input := fun he => onWord?_ne_input (he ▸ hw)
    simp [hne]

end Evaluate
end ScalarEval
