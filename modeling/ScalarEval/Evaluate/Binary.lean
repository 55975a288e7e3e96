import ScalarEval.Describe
import ScalarEval.Evaluate.Integer
import ScalarEval.Ieee.Comparison

/-! Binary operators. Operands in different allocations come first; then shifts, whose width
is that of the left kind; all other operators need operands of one kind. -/
namespace ScalarEval

def Arithmetic.onDoubles : Arithmetic → Nat → Nat → Nat
  | add => Ieee.binary64.add
  | sub => Ieee.binary64.sub
  | mul => Ieee.binary64.mul
  | div => Ieee.binary64.div
  | rem => Ieee.binary64.rem

def Bitwise.onWords : Bitwise → BitVec 64 → BitVec 64 → BitVec 64
  | or => (· ||| ·)
  | and => (· &&& ·)
  | xor => (· ^^^ ·)

namespace Evaluate

/-- Operators on pointers into different allocations, or on a pointer and plain data. Such
operands are never equal, and nothing else is defined on them. -/
def unrelated (op : BinaryOp) (left right : Pointer) : Evaluation Value :=
  match op with
  | .comparison .eq => .done (.ofBool false)
  | .comparison .ne => .done (.ofBool true)
  | .comparison _ =>
    .reject (texts fun l r => "ordered " ++ op.name ++ " across allocations: " ++ l ++ ", " ++ r)
      .unrelatedOrder
  | _ =>
    if left.pointsToAlloc ≠ right.pointsToAlloc then
      .reject
        (texts fun l r => op.name ++ " mixes a pointer with plain data: " ++ l ++ ", " ++ r)
        .pointerAsData
    else do
      let l ← .ofInput left.text
      let r ← .ofInput right.text
      .fail (.violation (.unrelatedPointers op l r))
where
  texts (f : String → String → String) : Except InputError String := do
    let l ← left.text
    let r ← right.text
    return f l r

/-- The operator has no meaning on operands of these kinds. -/
def unimplementedBinary (op : BinaryOp) (left right : Operand) : Evaluation α := do
  let l ← .ofInput left.describe
  let r ← .ofInput right.describe
  let text := "unimplemented binary op: " ++ l ++ ", " ++ r ++ ", " ++ op.name
  .reject (.ok text) (.unimplementedBinary op left right text)

/-- Floating comparisons are of denoted values; all others are of words, read as unsigned. -/
def order (k : Kind) (l r : BitVec 64) : Option Ordering :=
  match k.format? with
  | some F => F.compare? l.toNat r.toNat
  | none => some (compare l.toNat r.toNat)

/-- Arithmetic at a floating kind never overflows. Singles are computed as doubles. -/
def floatArithmetic (op : Arithmetic) (k : Kind) (l r : BitVec 64) : Result :=
  ⟨.ofBits (k.ofDouble (op.onDoubles (k.toDouble l) (k.toDouble r))), false⟩

/-- Operators on operands of one allocation and one kind, shifts excepted. -/
def binaryAt (op : BinaryOp) (k : Kind) (left right : Value) : Evaluation Result :=
  match op with
  | .comparison c => .done ⟨.ofBool (c.holds (order k left.bits right.bits)), false⟩
  | .bitwise b => .done ⟨.ofBits (b.onWords left.bits right.bits), false⟩
  | .arithmetic a =>
    match k.category with
    | .floating => .done (floatArithmetic a k left.bits right.bits)
    | .integer => integerArithmetic a k left.bits.toNat right.bits.toNat
    | _ => unimplementedBinary op ⟨left, k⟩ ⟨right, k⟩
  | .shift _ => unimplementedBinary op ⟨left, k⟩ ⟨right, k⟩

/-- The amount of a shift is taken modulo the width of the left kind, whatever its own. -/
def shift (op : Shift) (left right : Operand) : Evaluation Result :=
  if left.kind.isInteger then
    let amount := right.value.bits.toNat % left.kind.width
    .ofViolation ((integerShift op left.kind left.value.bits.toNat amount).map (⟨·, false⟩))
  else .fail (.violation (.shiftAt left.kind))

def binary (op : BinaryOp) (left right : Operand) : Evaluation Result :=
  if left.value.alloc ≠ right.value.alloc then do
    let v ← unrelated op left.value.toPointer right.value.toPointer
    return ⟨v, false⟩
  else match op with
    | .shift s => shift s left right
    | _ =>
      if left.kind = right.kind then binaryAt op left.kind left.value right.value
      else unimplementedBinary op left right

end Evaluate
end ScalarEval
