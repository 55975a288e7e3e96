import ScalarEval.Evaluation
import ScalarEval.View

/-! Integer arithmetic and shifts at the width of a kind: computed exactly, then wrapped. -/
namespace ScalarEval

-- One meaning of powers, whichever other instances are in scope.
attribute [local instance (high)] instPowNat

/-- What a binary operator yields. The flag reports that wrapping changed the result. -/
structure Result where
  value : Value
  overflow : Bool
  deriving DecidableEq, Repr

namespace Arithmetic

def divides : Arithmetic → Bool
  | div | rem => true
  | _ => false

/-- The exact result. Division truncates toward zero. -/
def exact : Arithmetic → Int → Int → Int
  | add, a, b => a + b
  | sub, a, b => a - b
  | mul, a, b => a * b
  | div, a, b => a.tdiv b
  | rem, a, b => a.tmod b

/-- The integer whose fit decides overflow: the exact result, except that a remainder
overflows exactly where its quotient does. -/
def measured : Arithmetic → Int → Int → Int
  | rem, a, b => a.tdiv b
  | op, a, b => op.exact a b

end Arithmetic

namespace Evaluate

/-- Arithmetic on two integers, each first read at the kind. -/
def integerArithmetic (op : Arithmetic) (k : Kind) (l r : Int) : Evaluation Result :=
  let a := k.wrap l
  let b := k.wrap r
  if !k.isInteger then .fail (.violation (.integerArithmeticAt k))
  else if op.divides ∧ b = 0 then
    .reject (.ok ((BinaryOp.arithmetic op).name ++ " by zero at " ++ k.label))
      (.divisionByZero (some (.arithmetic op)))
  else .done ⟨.ofInt (op.exact a b) k, !k.fits (op.measured a b)⟩

/-- A shift of an integer read at the kind: up by multiplying, down by rounding a quotient
toward negative infinity. Shifting by 64 already leaves nothing of any kind. -/
def integerShift (op : Shift) (k : Kind) (l : Int) (amount : Nat) : Except Violation Value :=
  let x := k.wrap l
  let step : Nat := 2 ^ min amount 64
  k.integerView (match op with
    | .left => .ofInt (x * step) k
    | .right => .ofInt (x / step) k)

end Evaluate
end ScalarEval
