import ScalarEval.Evaluate.Binary
import ScalarEval.Evaluate.Unary

/-! Runs: operators applied one after another to an accumulated value. -/
namespace ScalarEval

/-- One operator on the accumulated value, which is read at `kind`. With `swapped` it is the
right operand. -/
inductive Step where
  | binary (op : BinaryOp) (kind : Kind) (argument : Operand) (swapped : Bool)
  | unary (op : UnaryOp) (kind : Kind)
  deriving DecidableEq, Repr

/-- Unary operators have no overflow to report. -/
inductive StepResult where
  | binary (r : Result)
  | unary (v : Value)
  deriving DecidableEq, Repr

def StepResult.value : StepResult → Value
  | binary r => r.value
  | unary v => v

namespace Step

def outcome (v : Value) : Step → Except Failure StepResult
  | binary op k argument swapped =>
    let result := if swapped then Evaluate.binary op argument ⟨v, k⟩
      else Evaluate.binary op ⟨v, k⟩ argument
    result.outcome.map .binary
  | unary op k => (Evaluate.unary op ⟨v, k⟩).outcome.map .unary

end Step

/-- The outcomes of a run. A step that fails leaves the accumulated value as it was. -/
def run (v : Value) : List Step → List (Except Failure StepResult)
  | [] => []
  | s :: steps =>
    let o := s.outcome v
    o :: run (match o with | .ok r => r.value | .error _ => v) steps

end ScalarEval
