import Mathlib
import ScalarEval.Proofs.Cause

/-! Pointers under operators that compute. The kinds decide whether such an operator runs, and
allocations only whether the kinds are asked: of pointers into one allocation, as of the operand of
a unary operator, the offset is taken as it would be from plain data. -/
namespace ScalarEval

/-- The same word and kind without an allocation. -/
def Operand.plain (o : Operand) : Operand :=
  ⟨.ofBits o.value.bits, o.kind⟩

namespace BinaryOp

/-- The operators that take words for numbers to compute with. -/
def computes (op : BinaryOp) : Bool :=
  op.isArithmetic || op.isShift

/-- The kinds at which an operator computes. Arithmetic needs one numeric kind, a shift an integer
on its left. -/
def computesAt (op : BinaryOp) (lk rk : Kind) : Bool :=
  match op with
  | .arithmetic _ => lk = rk && (lk.isInteger || lk.isFloating)
  | .shift _ => lk.isInteger
  | _ => false

theorem computesAt_ptr (op : BinaryOp) (k : Kind) : op.computesAt .ptr k = false := by
  cases op <;> simp [computesAt, Kind.isInteger, Kind.isFloating, Kind.category]

end BinaryOp

/-- The kinds at which a unary operator computes. -/
def UnaryOp.computesAt (op : UnaryOp) (k : Kind) : Bool :=
  match op with
  | .not => k = .bool || k.isInteger
  | .neg => k.isSignedInteger || k.isFloating

theorem UnaryOp.computesAt_ptr (op : UnaryOp) : op.computesAt .ptr = false := by
  cases op <;> rfl

/-- The evaluation is rejected, or finds the contract of its operands broken. -/
def Evaluation.Refused {α : Type} (x : Evaluation α) : Prop :=
  (∃ e, x.outcome = .error (.evaluation e)) ∨ ∃ v, x.outcome = .error (.violation v)

theorem Evaluation.refused_of_ending {α : Type} {x : Evaluation α} {c : Cause}
    (h : x.ending = .error c) (hc : c ≠ .input ∧ c ≠ .absent) : x.Refused := by
  obtain ⟨f, hf, rfl⟩ := ending_eq_error_iff.mp h
  cases f with
  | evaluation e => exact .inl ⟨e, hf⟩
  | violation v => exact .inr ⟨v, hf⟩
  | input e => exact absurd rfl hc.1
  | absent a => exact absurd rfl hc.2

namespace Evaluate
variable {l r o : Operand}

/-- Where a computing operator does not compute, it fails. -/
theorem exists_ending_binary_eq_error {op : BinaryOp} (hop : op.computes = true)
    (h : ¬ (l.value.alloc = r.value.alloc ∧ op.computesAt l.kind r.kind = true)) :
    ∃ c, (binary op l r).ending = .error c := by
  by_cases ha : l.value.alloc = r.value.alloc
  · have hk : op.computesAt l.kind r.kind = false := by simpa [ha] using h
    rw [ending_binary_related op ha, ending_unimplementedBinary_eq]
    cases op with
    | comparison _ | bitwise _ => cases hop
    | shift s =>
      have hi : l.kind.isInteger = false := hk
      simp [onWords?, hi]
    | arithmetic a =>
      by_cases hkind : l.kind = r.kind
      · have hnumeric : l.kind.isInteger = false ∧ l.kind.isFloating = false := by
          simpa [BinaryOp.computesAt, hkind] using hk
        rw [← hkind, onWords?_arithmetic_eq_none hnumeric.1 hnumeric.2]
        exact ⟨_, rfl⟩
      · simp [onWords?, hkind]
  · have hc : op.isComparison = false := by cases op <;> first | rfl | cases hop
    rw [ending_binary_unrelated op ha, ending_unrelated_eq hc]
    exact ⟨_, rfl⟩

theorem onWord?_eq_none {op : UnaryOp} {k : Kind} (h : op.computesAt k = false) (w : BitVec 64) :
    onWord? op k w = none := by
  cases op with
  | not =>
    have hk : ¬ k = .bool ∧ k.isInteger = false := by simpa [UnaryOp.computesAt] using h
    simp [onWord?, hk]
  | neg =>
    obtain ⟨hi, hf⟩ : k.isSignedInteger = false ∧ k.isFloating = false := by
      simpa [UnaryOp.computesAt] using h
    have hsingle : ¬ k = .f32 := by rintro rfl; cases hf
    have hdouble : ¬ k = .f64 := by rintro rfl; cases hf
    simp [onWord?, hi, hsingle, hdouble]

theorem exists_ending_unary_eq_error {op : UnaryOp} (h : op.computesAt o.kind = false) :
    ∃ c, (unary op o).ending = .error c := by
  rw [ending_unary, onWord?_eq_none h, ending_unimplementedUnary_eq]
  exact ⟨_, rfl⟩

/-- Where it computes, it takes the words alone. -/
theorem binary_plain {op : BinaryOp} (ha : l.value.alloc = r.value.alloc)
    (hk : op.computesAt l.kind r.kind = true) : binary op l r = binary op l.plain r.plain := by
  have hplain : l.plain.value.alloc = r.plain.value.alloc := rfl
  simp only [binary, ha, hplain, ne_eq, not_true_eq_false, if_false]
  cases op with
  | comparison _ | bitwise _ => cases hk
  | shift s => rfl
  | arithmetic a =>
    obtain ⟨hkind, hnumeric⟩ : l.kind = r.kind ∧ (l.kind.isInteger || l.kind.isFloating) = true := by
      simpa [BinaryOp.computesAt] using hk
    simp only [Operand.plain, hkind, if_true, binaryAt]
    cases hc : r.kind.category with
    | integer | floating => rfl
    | boolean | pointer => simp [hkind, Kind.isInteger, Kind.isFloating, hc] at hnumeric

theorem unary_plain {op : UnaryOp} (hk : op.computesAt o.kind = true) :
    unary op o = unary op o.plain := by
  obtain ⟨v, k⟩ := o
  cases op <;> cases k <;> first | rfl | exact absurd hk Bool.false_ne_true

/-- A computing operator fails unless its operands lie in one allocation, or are both plain, and
have kinds at which it computes. It then does what it does on plain data. At `ptr` none computes. -/
theorem computes_on_words :
    (∀ (op : BinaryOp) (l r : Operand), op.computes = true →
      ¬ (l.value.alloc = r.value.alloc ∧ op.computesAt l.kind r.kind = true) →
      (∃ f, (binary op l r).outcome = .error f) ∧
        (l.value.HasText → r.value.HasText → (binary op l r).Refused)) ∧
    (∀ (op : BinaryOp) (l r : Operand), l.value.alloc = r.value.alloc →
      op.computesAt l.kind r.kind = true → binary op l r = binary op l.plain r.plain) ∧
    (∀ (op : UnaryOp) (o : Operand), op.computesAt o.kind = false →
      (∃ f, (unary op o).outcome = .error f) ∧ (o.value.HasText → (unary op o).Refused)) ∧
    (∀ (op : UnaryOp) (o : Operand), op.computesAt o.kind = true →
      unary op o = unary op o.plain) ∧
    (∀ (op : BinaryOp) (k : Kind), op.computesAt .ptr k = false) ∧
    ∀ op : UnaryOp, op.computesAt .ptr = false := by
  refine ⟨fun op l r hop h => ?_, fun op l r => binary_plain, fun op o h => ?_,
    fun op o => unary_plain, BinaryOp.computesAt_ptr, UnaryOp.computesAt_ptr⟩
  · obtain ⟨c, hc⟩ := exists_ending_binary_eq_error hop h
    obtain ⟨f, hf, -⟩ := Evaluation.ending_eq_error_iff.mp hc
    exact ⟨⟨f, hf⟩, fun hl hr => Evaluation.refused_of_ending hc (cause_of_binary hl hr hc)⟩
  · obtain ⟨c, hc⟩ := exists_ending_unary_eq_error h
    obtain ⟨f, hf, -⟩ := Evaluation.ending_eq_error_iff.mp hc
    exact ⟨⟨f, hf⟩, fun ho => Evaluation.refused_of_ending hc (cause_of_unary ho hc)⟩

/-- Two offsets into one allocation are refused at `ptr` and subtracted at `u64`. -/
theorem computes_on_words_same_allocation :
    (binary (.arithmetic .sub) ⟨⟨16, some (.number 1)⟩, .ptr⟩
        ⟨⟨8, some (.number 1)⟩, .ptr⟩).Refused ∧
      binary (.arithmetic .sub) ⟨⟨16, some (.number 1)⟩, .u64⟩ ⟨⟨8, some (.number 1)⟩, .u64⟩ =
        binary (.arithmetic .sub) ⟨⟨16, none⟩, .u64⟩ ⟨⟨8, none⟩, .u64⟩ ∧
      (unary .neg ⟨⟨16, some (.number 1)⟩, .ptr⟩).Refused ∧
      unary .not ⟨⟨16, some (.number 1)⟩, .u8⟩ = unary .not ⟨⟨16, none⟩, .u8⟩ := by
  have hl : (Value.mk 16 (some (.number 1))).HasText := by decide
  have hr : (Value.mk 8 (some (.number 1))).HasText := by decide
  obtain ⟨hrefused, hplain, hrefused', hplain', -⟩ := computes_on_words
  exact ⟨(hrefused (.arithmetic .sub) ⟨⟨16, some (.number 1)⟩, .ptr⟩
      ⟨⟨8, some (.number 1)⟩, .ptr⟩ rfl (by decide)).2 hl hr,
    hplain (.arithmetic .sub) ⟨⟨16, some (.number 1)⟩, .u64⟩ ⟨⟨8, some (.number 1)⟩, .u64⟩ rfl rfl,
    (hrefused' .neg ⟨⟨16, some (.number 1)⟩, .ptr⟩ rfl).2 hl,
    hplain' .not ⟨⟨16, some (.number 1)⟩, .u8⟩ rfl⟩

/-- So a value can come from the offset of a pointer. -/
theorem computes_on_pointers :
    (Value.mk 16 (some (.number 1))).isPointer = true ∧
      (Value.mk 8 (some (.number 1))).isPointer = true ∧
      (binary (.arithmetic .sub) ⟨⟨16, some (.number 1)⟩, .u64⟩
        ⟨⟨8, some (.number 1)⟩, .u64⟩).outcome = .ok ⟨.ofBits 8, false⟩ ∧
      (unary .not ⟨⟨16, some (.number 1)⟩, .u8⟩).outcome = .ok (.ofBits 0xef) := by
  refine ⟨rfl, rfl, ?_, ?_⟩ <;> decide +kernel

end Evaluate
end ScalarEval
