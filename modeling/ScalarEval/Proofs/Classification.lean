import Mathlib
import ScalarEval.Proofs.Dispatch

/-! The causes of failure, each with the operands that lead to it. The order of the tests, of
allocations, shifts and kinds, decides between causes that apply together. -/
namespace ScalarEval

/-- How a binary operator ends on operands in two allocations. -/
structure UnrelatedEnds (op : BinaryOp) (l r : Operand) (e : Except Cause Result) : Prop where
  eq : op = .comparison .eq → e = .ok ⟨.ofBool false, false⟩
  ne : op = .comparison .ne → e = .ok ⟨.ofBool true, false⟩
  ordering : op.isOrdering = true → e = .error .invalidPointerArithmetic
  mixed : op.isComparison = false → l.value.isPointer ≠ r.value.isPointer →
    e = .error .readPointerAsBytes
  genuine : op.isComparison = false → l.value.isPointer = true → r.value.isPointer = true →
    e = .error .violation

/-- How a binary operator ends on operands in one allocation, or on plain data. -/
structure RelatedEnds (op : BinaryOp) (l r : Operand) (e : Except Cause Result) : Prop where
  shift_violation : op.isShift = true → (e = .error .violation ↔ l.kind.isInteger = false)
  shift_ok : op.isShift = true → ((∃ x, e = .ok x) ↔ l.kind.isInteger = true)
  mismatch : op.isShift = false → l.kind ≠ r.kind → e = .error .unimplemented
  unimplemented : op.isShift = false → l.kind = r.kind →
    (e = .error .unimplemented ↔ op.isArithmetic = true ∧ (l.kind = .bool ∨ l.kind = .ptr))
  divisionByZero : op.isShift = false → l.kind = r.kind →
    (e = .error .divisionByZero ↔ op.divides = true ∧ l.kind.isInteger = true ∧
      r.value.bits.toNat % 2 ^ l.kind.width = 0)
  otherwise : op.isShift = false → l.kind = r.kind → e ≠ .error .unimplemented →
    e ≠ .error .divisionByZero → ∃ x, e = .ok x

/-- How a unary operator ends. -/
structure UnaryEnds (op : UnaryOp) (o : Operand) (e : Except Cause Value) : Prop where
  not_integer : op = .not → o.kind.isInteger = true → ∃ v, e = .ok v
  not_bool : op = .not → o.kind = .bool → o.value.bits.toNat ≤ 1 → ∃ v, e = .ok v
  not_invalid : op = .not → o.kind = .bool → 1 < o.value.bits.toNat → e = .error .violation
  neg : op = .neg → o.kind.isSignedInteger = true ∨ o.kind.isFloating = true → ∃ v, e = .ok v
  not_unimplemented : op = .not → o.kind ≠ .bool → o.kind.isInteger = false →
    e = .error .unimplemented
  neg_unimplemented : op = .neg → o.kind.isSignedInteger = false → o.kind.isFloating = false →
    e = .error .unimplemented

namespace Evaluate
variable {l r o : Operand}

theorem unrelatedEnds (op : BinaryOp) (hl : l.value.HasText) (hr : r.value.HasText)
    (h : l.value.alloc ≠ r.value.alloc) : UnrelatedEnds op l r (binary op l r).ending := by
  rw [ending_binary op hl hr, if_neg h]
  cases op with
  | comparison c =>
    cases c <;> constructor <;>
      simp [unrelatedEnding, Except.map, BinaryOp.isOrdering, Comparison.isOrdering,
        BinaryOp.isComparison]
  | arithmetic _ | bitwise _ | shift _ =>
    constructor <;>
      simp +contextual [unrelatedEnding, Except.map, BinaryOp.isOrdering, BinaryOp.isComparison]

/-- A divisor is zero at a kind where the low bits that the kind reads are. -/
theorem wrap_word_eq_zero_iff {k : Kind} {w : BitVec 64} :
    k.wrap w.toNat = 0 ↔ w.toNat % 2 ^ k.width = 0 := by
  rw [Kind.wrap_eq_zero_iff, ← Nat.dvd_iff_mod_eq_zero]
  exact_mod_cast Iff.rfl

private theorem relatedEnds_arithmetic (a : Arithmetic) (k : Kind) (lv rv : Value) :
    RelatedEnds (.arithmetic a) ⟨lv, k⟩ ⟨rv, k⟩
      ((onWords? (.arithmetic a) k k lv.bits rv.bits).getD (.error .unimplemented)) := by
  have hother := k.eq_bool_or_ptr_iff
  cases hi : k.isInteger with
  | true =>
    rw [onWords?_arithmetic hi]
    rw [hi] at hother
    by_cases hz : a.divides = true ∧ k.wrap rv.bits.toNat = 0
    · have hz' := And.intro hz.1 (wrap_word_eq_zero_iff.mp hz.2)
      constructor <;> simp [BinaryOp.isShift, BinaryOp.divides, hi, hz, hz', hother]
    · have hz' : a.divides = true → ¬ rv.bits.toNat % 2 ^ k.width = 0 :=
        fun hd hm => hz ⟨hd, wrap_word_eq_zero_iff.mpr hm⟩
      constructor <;> simp [BinaryOp.isShift, BinaryOp.divides, hi, hz, hother]
      exact hz'
  | false =>
    cases hf : k.isFloating with
    | true =>
      rw [onWords?_floating hf]
      rw [hi, hf] at hother
      constructor <;> simp [BinaryOp.isShift, hi, hother]
    | false =>
      rw [onWords?_arithmetic_eq_none hi hf]
      rw [hi, hf] at hother
      constructor <;> simp [BinaryOp.isShift, BinaryOp.isArithmetic, hi, hother]

theorem relatedEnds (op : BinaryOp) (hl : l.value.HasText) (hr : r.value.HasText)
    (h : l.value.alloc = r.value.alloc) : RelatedEnds op l r (binary op l r).ending := by
  rw [ending_binary op hl hr, if_pos h]
  cases op with
  | shift s =>
    cases hi : l.kind.isInteger <;> constructor <;> simp [onWords?, hi, BinaryOp.isShift]
  | comparison _ | bitwise _ =>
    constructor <;>
      simp +contextual [onWords?, BinaryOp.isShift, BinaryOp.isArithmetic, BinaryOp.divides]
  | arithmetic a =>
    obtain ⟨lv, j⟩ := l
    obtain ⟨rv, k⟩ := r
    by_cases hk : j = k
    · subst hk
      exact relatedEnds_arithmetic a j lv rv
    · constructor <;> simp [onWords?, BinaryOp.isShift, hk]

theorem unaryEnds (op : UnaryOp) (ho : o.value.HasText) :
    UnaryEnds op o (unary op o).ending := by
  rw [ending_unary, ending_unimplementedUnary op ho]
  obtain ⟨v, k⟩ := o
  cases op with
  | not =>
    by_cases hb : k = .bool
    · subst hb
      by_cases hv : v.bits.toNat ≤ 1
      · constructor <;> simp [onWord?, hv, Kind.isInteger, Kind.category]
      · constructor <;> simp [onWord?, hv, Kind.isInteger, Kind.category]
    · cases hi : k.isInteger <;> constructor <;> simp [onWord?, hb, hi]
  | neg =>
    cases k <;> constructor <;>
      simp [onWord?, Kind.isSignedInteger, Kind.isInteger, Kind.isSigned, Kind.isFloating,
        Kind.category]

/-- How operators end. Every operand and every pair of kinds is covered, and no ending is left
open. -/
theorem operators_end (hl : l.value.HasText) (hr : r.value.HasText) :
    (∀ op : BinaryOp,
      (l.value.alloc ≠ r.value.alloc → UnrelatedEnds op l r (binary op l r).ending) ∧
      (l.value.alloc = r.value.alloc → RelatedEnds op l r (binary op l r).ending)) ∧
    ∀ op : UnaryOp, UnaryEnds op l (unary op l).ending :=
  ⟨fun op => ⟨unrelatedEnds op hl hr, relatedEnds op hl hr⟩, fun op => unaryEnds op hl⟩

/-- A shift of one pointer by another is refused for their allocations, before the kinds are
seen. -/
theorem operators_end_two_allocations :
    (Value.mk 16 (some (.name "heap"))).HasText ∧ (Value.mk 3 (some (.number (-7)))).HasText ∧
      (binary (.shift .left) ⟨⟨16, some (.name "heap")⟩, .f32⟩
        ⟨⟨3, some (.number (-7))⟩, .u8⟩).ending = .error .violation := by
  have hl : (Value.mk 16 (some (.name "heap"))).HasText := by decide
  have hr : (Value.mk 3 (some (.number (-7)))).HasText := by decide
  have h := operators_end (l := ⟨⟨16, some (.name "heap")⟩, .f32⟩)
    (r := ⟨⟨3, some (.number (-7))⟩, .u8⟩) hl hr
  exact ⟨hl, hr, ((h.1 (.shift .left)).1 (by decide)).genuine rfl rfl rfl⟩

end Evaluate
end ScalarEval
