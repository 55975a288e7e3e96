import Mathlib
import ScalarEval.Command.Report
import ScalarEval.Proofs.Canonical
import ScalarEval.Proofs.Cause
import ScalarEval.Proofs.Line
import ScalarEval.Proofs.OperandValue
import ScalarEval.Proofs.Request

/-! Reports of the command line. A command reads its operands, evaluates its operator and prints
the text of the result; its report says which of these did not come about. -/
namespace ScalarEval

namespace Operand

end Operand

namespace Command

/-- The line that a binary command prints. -/
def binaryLine (op : BinaryOp) (kind : Kind) (x : Result) : Except InputError String := do
  let text ← Operand.describe ⟨x.value, resultKind op kind⟩
  return text ++ " overflow=" ++ (if x.overflow then "true" else "false")

def unaryLine (kind : Kind) (v : Value) : Except InputError String :=
  Operand.describe ⟨v, kind⟩

/-- The outcome of a command, from that of its evaluation. -/
def printedOutcome {α : Type} (line : α → Except InputError String) :
    Except InputError (Evaluation α) → Except Failure String
  | .error e => .error (.input e)
  | .ok x => x.outcome.bind fun a => ((line a).map (· ++ "\n")).mapError .input

section
variable {left right operand : String} {kind rightKind : Kind}

theorem binaryLine_eq_ok (op : BinaryOp) (kind : Kind) {x : Result} (hx : x.value.alloc = none) :
    ∃ t, binaryLine op kind x = .ok t ∧ OneLine t := by
  refine ⟨Operand.plainText x.value.bits (resultKind op kind) ++ " overflow=" ++
    (if x.overflow then "true" else "false"), ?_, ?_⟩
  · simp only [binaryLine, Operand.describe, hx]
    rfl
  · refine .append (.append (Operand.oneLine_plainText _ _) (by decide)) ?_
    split <;> decide

theorem unaryLine_eq_ok (kind : Kind) {v : Value} (hv : v.alloc = none) :
    ∃ t, unaryLine kind v = .ok t ∧ OneLine t := by
  refine ⟨Operand.plainText v.bits kind, ?_, Operand.oneLine_plainText _ _⟩
  simp only [unaryLine, Operand.describe, hv]

end

section
variable {α : Type} {line : α → Except InputError String}
  {evaluation : Except InputError (Evaluation α)}

end
section
variable {arguments : List String} {left right operand : String} {kind : Kind}

end

end Command
end ScalarEval
