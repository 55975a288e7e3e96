import ScalarEval.Floating
import ScalarEval.Ieee.Literal
import ScalarEval.Numeral

/-! Reading operands. The kind decides how a text is read. -/
namespace ScalarEval.Operand

open Text

/-- Truth values are words or digits, the words in any letter case. -/
def readTruth (text : String) : Except InputError Value :=
  let word := String.ofList ((trim isBlank text.toList).map Char.toLower)
  if word = "true" ∨ word = "1" then .ok (.ofBool true)
  else if word = "false" ∨ word = "0" then .ok (.ofBool false)
  else .error (.invalidBool text)

def readFloat (text : String) (k : Kind) : Except InputError Value :=
  match Ieee.Literal.ofText? text with
  | some l => Value.ofDouble (l.nearest Ieee.binary64) k
  | none => .error (.invalidFloat text)

/-- An integer, or an allocation and an offset around a colon. -/
def readInteger (text : String) (k : Kind) : Except InputError Value :=
  let cs := text.toList
  match cs.dropWhile (· ≠ ':') with
  | [] => do
    let n ← Numeral.read cs
    return .ofInt n k
  | _ :: rest => do
    let alloc ← Numeral.read (cs.takeWhile (· ≠ ':'))
    let offset ← Numeral.read rest
    return .ofPointer ⟨some (.number alloc), offset⟩

def read (text : String) (k : Kind) : Except InputError Value :=
  match k.category with
  | .boolean => readTruth text
  | .floating => readFloat text k
  | _ => readInteger text k

end ScalarEval.Operand
