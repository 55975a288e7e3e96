import ScalarEval.Describe
import ScalarEval.Evaluation
import ScalarEval.View

/-! Unary operators: complement of integers and truth values, negation of signed integers and
floating values. Allocations are not consulted. -/
namespace ScalarEval

namespace Evaluate

def unimplementedUnary (op : UnaryOp) (operand : Operand) : Evaluation α := do
  let o ← .ofInput operand.describe
  let text := "unimplemented unary op: " ++ op.name ++ ", " ++ o
  .reject (.ok text) (.unimplementedUnary op operand text)

/-- Negation of the least integer of a kind gives it back. Negation of a floating value flips
the sign bit, also of a NaN. -/
def unary (op : UnaryOp) (o : Operand) : Evaluation Value :=
  match op with
  | .not =>
    match o.kind.category with
    | .boolean => do
      let b ← .ofViolation o.value.toBool
      return .ofBool !b
    | .integer => .done (.ofInt (-o.value.read o.kind - 1) o.kind)
    | _ => unimplementedUnary op o
  | .neg =>
    if o.kind.isSignedInteger then .done (.ofInt (-o.value.read o.kind) o.kind)
    else match o.kind with
      | .f32 => .done (.ofBits ((o.value.bits &&& 0xffffffff) ^^^ 0x80000000))
      | .f64 => .done (.ofBits (o.value.bits ^^^ 0x8000000000000000))
      | _ => unimplementedUnary op o

end Evaluate
end ScalarEval
