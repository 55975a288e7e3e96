import Mathlib
import ScalarEval.Proofs.Comparison
import ScalarEval.Proofs.Ieee.Arithmetic

/-! Exchanging the operands of an operator. Where an operator has a mirror image, that ends on
the exchanged operands as the operator does on the given ones, by result and by cause. -/
namespace ScalarEval

def Arithmetic.isCommutative : Arithmetic → Bool
  | add | mul => true
  | _ => false

/-- The comparison of the same operands from right to left. -/
def Comparison.mirror : Comparison → Comparison
  | eq => eq
  | ne => ne
  | lt => gt
  | le => ge
  | gt => lt
  | ge => le

/-- The operator that takes the same operands in the opposite order, where there is one. -/
def BinaryOp.mirror? : BinaryOp → Option BinaryOp
  | .arithmetic a => if a.isCommutative then some (.arithmetic a) else none
  | .bitwise b => some (.bitwise b)
  | .shift _ => none
  | .comparison c => some (.comparison c.mirror)

theorem BinaryOp.mirror?_cases {op m : BinaryOp} (h : op.mirror? = some m) :
    (∃ a : Arithmetic, a.isCommutative = true ∧ op = .arithmetic a ∧ m = .arithmetic a) ∨
      (∃ b, op = .bitwise b ∧ m = .bitwise b) ∨
      ∃ c, op = .comparison c ∧ m = .comparison c.mirror := by
  cases op with
  | arithmetic a =>
    simp only [mirror?] at h
    split at h
    next ha => exact .inl ⟨a, ha, rfl, (Option.some.inj h).symm⟩
    next => cases h
  | bitwise b => exact .inr (.inl ⟨b, rfl, (Option.some.inj h).symm⟩)
  | shift s => cases h
  | comparison c => exact .inr (.inr ⟨c, rfl, (Option.some.inj h).symm⟩)

theorem Comparison.holds_mirror (c : Comparison) (o : Option Ordering) :
    c.mirror.holds (o.map Ordering.swap) = c.holds o := by
  cases c <;> rcases o with _ | _ | _ | _ <;> rfl

theorem Bitwise.onWords_comm (b : Bitwise) (l r : BitVec 64) : b.onWords r l = b.onWords l r := by
  cases b with
  | or => exact BitVec.or_comm r l
  | and => exact BitVec.and_comm r l
  | xor => exact BitVec.xor_comm r l

namespace Arithmetic
variable {op : Arithmetic}

theorem divides_eq_false (h : op.isCommutative = true) : op.divides = false := by
  cases op with
  | add | mul => rfl
  | sub | div | rem => cases h

theorem exact_comm (h : op.isCommutative = true) (a b : ℤ) : op.exact b a = op.exact a b := by
  cases op with
  | add => exact Int.add_comm b a
  | mul => exact Int.mul_comm b a
  | sub | div | rem => cases h

theorem onDoubles_comm (h : op.isCommutative = true) (p q : ℕ) :
    op.onDoubles q p = op.onDoubles p q := by
  cases op with
  | add => exact Ieee.binary64.add_comm q p
  | mul => exact Ieee.binary64.mul_comm q p
  | sub | div | rem => cases h

end Arithmetic

namespace Evaluate
variable {op m : BinaryOp}

theorem onWords?_arithmetic_comm {a : Arithmetic} (h : a.isCommutative = true) (k : Kind)
    (l r : BitVec 64) :
    onWords? (.arithmetic a) k k r l = onWords? (.arithmetic a) k k l r := by
  cases hi : k.isInteger with
  | true =>
    have hd := Arithmetic.divides_eq_false h
    rw [onWords?_arithmetic hi, onWords?_arithmetic hi]
    simp [hd, Arithmetic.measured_eq_exact hd, Arithmetic.exact_comm h (k.wrap l.toNat)]
  | false =>
    cases hf : k.isFloating with
    | true =>
      rw [onWords?_floating hf, onWords?_floating hf]
      simp only [floatArithmetic, Arithmetic.onDoubles_comm h (k.toDouble l)]
    | false => rw [onWords?_arithmetic_eq_none hi hf, onWords?_arithmetic_eq_none hi hf]

theorem onWords?_exchange (h : op.mirror? = some m) (lk rk : Kind) (l r : BitVec 64) :
    onWords? m rk lk r l = onWords? op lk rk l r := by
  by_cases hk : lk = rk
  · subst hk
    obtain ⟨a, ha, rfl, rfl⟩ | ⟨b, rfl, rfl⟩ | ⟨c, rfl, rfl⟩ := BinaryOp.mirror?_cases h
    · exact onWords?_arithmetic_comm ha lk l r
    · simp only [onWords?, if_true, b.onWords_comm l r]
    · simp only [onWords?, if_true, order_swap lk l r, Comparison.holds_mirror]
  · obtain ⟨a, -, rfl, rfl⟩ | ⟨b, rfl, rfl⟩ | ⟨c, rfl, rfl⟩ := BinaryOp.mirror?_cases h <;>
      simp [onWords?, hk, Ne.symm hk]

theorem ending_unrelated_swap (h : op.isComparison = false) (l r : Pointer) :
    (unrelated op r l).ending = (unrelated op l r).ending := by
  rw [ending_unrelated_eq h, ending_unrelated_eq h, Bool.and_comm r.text.isOk]
  simp only [ne_comm]

theorem ending_unrelated_exchange (h : op.mirror? = some m) (l r : Pointer) :
    (unrelated m r l).ending = (unrelated op l r).ending := by
  obtain ⟨a, -, rfl, rfl⟩ | ⟨b, rfl, rfl⟩ | ⟨c, rfl, rfl⟩ := BinaryOp.mirror?_cases h
  · exact ending_unrelated_swap rfl l r
  · exact ending_unrelated_swap rfl l r
  · cases c with
    | eq | ne => rfl
    | lt | le | gt | ge => rw [ending_unrelated_ordering rfl, ending_unrelated_ordering rfl]

/-- An operator and its mirror image end alike on operands and on the exchanged ones. -/
theorem binary_exchange (h : op.mirror? = some m) (l r : Operand) :
    (binary m r l).ending = (binary op l r).ending := by
  by_cases ha : l.value.alloc = r.value.alloc
  · rw [ending_binary_related op ha, ending_binary_related m ha.symm, onWords?_exchange h,
      ending_unimplementedBinary_eq, ending_unimplementedBinary_eq,
      Bool.and_comm r.describe.isOk]
  · rw [ending_binary_unrelated op ha, ending_binary_unrelated m (Ne.symm ha),
      ending_unrelated_exchange h]

/-- The zeros of `f32` are equal in either order, whatever the high halves of their words hold. -/
theorem binary_exchange_zeros :
    BinaryOp.mirror? (.comparison .le) = some (.comparison .ge) ∧
      (binary (.comparison .ge) ⟨.ofBits 0x180000000, .f32⟩ ⟨.ofBits 0, .f32⟩).ending =
        (binary (.comparison .le) ⟨.ofBits 0, .f32⟩ ⟨.ofBits 0x180000000, .f32⟩).ending ∧
      (binary (.comparison .ge) ⟨.ofBits 0x180000000, .f32⟩ ⟨.ofBits 0, .f32⟩).ending =
        .ok ⟨.ofBool true, false⟩ :=
  ⟨rfl, binary_exchange rfl _ _, Evaluation.ending_eq_ok_iff.mpr (compares_iff.mpr (by decide))⟩

end Evaluate
end ScalarEval
