import Mathlib
import ScalarEval.Evaluate.Binary
import ScalarEval.Evaluate.Unary

/-! How evaluations end: with a result, or with a failure of some cause. Texts and records are
left aside. They can change an ending only where a numbered allocation has no text. -/
namespace ScalarEval

section Success
variable {ε α β : Type} {x : Except ε α} {b : β}

/-- What succeeds in two steps succeeds in each of them. -/
theorem exists_of_bind_eq_ok {f : α → Except ε β} (h : x >>= f = .ok b) :
    ∃ a, x = .ok a ∧ f a = .ok b := by
  cases x with
  | error e => cases h
  | ok a => exact ⟨a, rfl, h⟩

theorem exists_of_map_eq_ok {f : α → β} (h : x.map f = .ok b) : ∃ a, b = f a ∧ x = .ok a := by
  cases x with
  | error e => cases h
  | ok a => exact ⟨a, (Except.ok.inj h).symm, rfl⟩

end Success

/-- The type of a failure, without its text and operands. -/
inductive Cause where
  | unimplemented | invalidPointerArithmetic | readPointerAsBytes | divisionByZero
  | violation | input | absent
  deriving DecidableEq, Repr

def EvalError.cause : EvalError → Cause
  | unimplementedBinary .. | unimplementedUnary .. => .unimplemented
  | invalidPointerArithmetic _ => .invalidPointerArithmetic
  | readPointerAsBytes _ => .readPointerAsBytes
  | divisionByZero _ => .divisionByZero

def Failure.cause : Failure → Cause
  | evaluation e => e.cause
  | violation _ => .violation
  | input _ => .input
  | absent _ => .absent

namespace Evaluation
variable {α β : Type}

def ending (x : Evaluation α) : Except Cause α :=
  x.outcome.mapError Failure.cause

@[simp] theorem ending_done (a : α) : (done a).ending = .ok a := rfl

@[simp] theorem ending_pure (a : α) : (pure a : Evaluation α).ending = .ok a := rfl

@[simp] theorem ending_fail (f : Failure) : (fail f : Evaluation α).ending = .error f.cause := rfl

@[simp] theorem ending_reject (record : Except InputError String) (e : EvalError) :
    (reject record e : Evaluation α).ending = .error e.cause := rfl

@[simp] theorem ending_bind (x : Evaluation α) (f : α → Evaluation β) :
    (x >>= f).ending = x.ending.bind fun a => (f a).ending := by
  change (x.andThen f).outcome.mapError _ = (x.outcome.mapError _).bind _
  unfold andThen
  cases x.outcome with
  | ok a => rfl
  | error e => rfl

theorem outcome_bind (x : Evaluation α) (f : α → Evaluation β) :
    (x >>= f).outcome = x.outcome.bind fun a => (f a).outcome := by
  change (x.andThen f).outcome = _
  unfold andThen
  cases x.outcome with
  | ok a => rfl
  | error e => rfl

theorem outcome_ofInput (e : Except InputError α) :
    (ofInput e).outcome = e.mapError Failure.input := by
  cases e <;> rfl

theorem ending_eq_ok_iff {x : Evaluation α} {a : α} : x.ending = .ok a ↔ x.outcome = .ok a := by
  unfold ending
  cases x.outcome with
  | ok b => simp [Except.mapError]
  | error e => simp [Except.mapError]

theorem ending_eq_error_iff {x : Evaluation α} {c : Cause} :
    x.ending = .error c ↔ ∃ f, x.outcome = .error f ∧ f.cause = c := by
  unfold ending
  cases x.outcome with
  | ok b => simp [Except.mapError]
  | error e => simp [Except.mapError]

end Evaluation

/-- A name is its own text, of any length. A number has a text up to the limit on digits. -/
def AllocId.HasText : AllocId → Prop
  | number n => (Nat.toDigits 10 n.natAbs).length ≤ Text.decimalLimit
  | name _ => True

def Value.HasText (v : Value) : Prop :=
  ∀ a ∈ v.alloc, a.HasText

instance : (a : AllocId) → Decidable a.HasText
  | .number _ => inferInstanceAs (Decidable (_ ≤ _))
  | .name _ => .isTrue trivial

instance (v : Value) : Decidable v.HasText :=
  inferInstanceAs (Decidable (∀ a ∈ v.alloc, a.HasText))

theorem boundedDecimal_eq {n : ℤ} (h : (Nat.toDigits 10 n.natAbs).length ≤ Text.decimalLimit) :
    boundedDecimal n = .ok (Text.decimal n) := by
  have hlt : n.natAbs < 10 ^ Text.decimalLimit :=
    (Nat.length_toDigits_le_iff (by norm_num) (by norm_num [Text.decimalLimit])).mp h
  have hex : Text.exceedsDecimalLimit n = false := decide_eq_false (Nat.not_le.mpr hlt)
  simp [boundedDecimal, hex]

/-- What fits a word has at most 20 digits, far from the limit. -/
theorem length_toDigits_le_decimalLimit {n : ℕ} (h : n < 2 ^ 64) :
    (Nat.toDigits 10 n).length ≤ Text.decimalLimit := by
  have hlt : n < 10 ^ 20 := h.trans (by norm_num)
  have hshort : (Nat.toDigits 10 n).length ≤ 20 :=
    (Nat.length_toDigits_le_iff (by norm_num) (by norm_num)).mpr hlt
  exact hshort.trans (by norm_num [Text.decimalLimit])

theorem boundedDecimal_offset (w : BitVec 64) :
    boundedDecimal w.toNat = .ok (Text.decimal w.toNat) :=
  boundedDecimal_eq (length_toDigits_le_decimalLimit w.isLt)

theorem AllocId.text_eq_ok {a : AllocId} (h : a.HasText) : ∃ t, a.text = .ok t := by
  cases a with
  | number n => exact ⟨_, boundedDecimal_eq h⟩
  | name s => exact ⟨s, rfl⟩

theorem Operand.describe_eq_ok {o : Operand} (h : o.value.HasText) :
    ∃ t, o.describe = .ok t := by
  unfold describe
  cases ha : o.value.alloc with
  | none => exact ⟨_, rfl⟩
  | some a =>
    obtain ⟨t, ht⟩ := AllocId.text_eq_ok (h a ha)
    exact ⟨"alloc" ++ t ++ "+" ++ Text.hex o.value.bits.toNat, by simp only [ht]; rfl⟩

/-- Whether an operand has a text depends on its allocation alone. -/
theorem Operand.isOk_describe (o : Operand) :
    o.describe.isOk = o.value.alloc.all fun a => a.text.isOk := by
  unfold describe
  cases o.value.alloc with
  | none => rfl
  | some a =>
    change (a.text.map _).isOk = a.text.isOk
    cases a.text <;> rfl

theorem Value.text_toPointer {v : Value} (h : v.HasText) :
    ∃ t, v.toPointer.text = .ok t := by
  have halloc : ∃ t, Pointer.allocText v.alloc = .ok t := by
    cases ha : v.alloc with
    | none => exact ⟨_, rfl⟩
    | some a =>
      have h' := h a ha
      cases a with
      | number n => exact ⟨_, boundedDecimal_eq h'⟩
      | name s => exact ⟨_, rfl⟩
  obtain ⟨t, ht⟩ := halloc
  refine ⟨"Pointer(alloc_id=" ++ t ++ ", offset=" ++ Text.decimal v.bits.toNat ++ ")", ?_⟩
  unfold Pointer.text toPointer
  simp only [ht, boundedDecimal_offset]
  rfl

end ScalarEval
