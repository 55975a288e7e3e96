import ScalarEval.Floating
import ScalarEval.Ieee.Shortest

/-! The text of operands and pointers in results and messages. Only a numbered allocation can
be without text: its number may have more decimal digits than the limit. -/
namespace ScalarEval

open Text

def boundedDecimal (n : Int) : Except InputError String :=
  if exceedsDecimalLimit n then .error .longInteger else .ok (decimal n)

def AllocId.text : AllocId → Except InputError String
  | number n => boundedDecimal n
  | name s => .ok s

namespace Operand

/-- The text of plain data. -/
def plainText (v : BitVec 64) (k : Kind) : String :=
  match k.category with
  | .boolean =>
    if v = 0 then "false" else if v = 1 then "true" else "bool(" ++ hex v.toNat ++ ")"
  | .floating => (Ieee.binary64.literal (k.toDouble v)).render ++ k.label
  | .pointer => hex v.toNat
  | .integer => decimal (k.wrap v.toNat) ++ k.label

/-- The text of an operand. A genuine pointer is written alike at every kind. -/
def describe (o : Operand) : Except InputError String :=
  match o.value.alloc with
  | none => .ok (plainText o.value.bits o.kind)
  | some a => a.text.map fun t => "alloc" ++ t ++ "+" ++ hex o.value.bits.toNat

end Operand

namespace Pointer

def allocText : Option AllocId → Except InputError String
  | none => .ok "NEVER_ALLOC"
  | some (.number n) => boundedDecimal n
  | some (.name s) => .ok (quote s)

/-- The text of a pointer with its parts named. -/
def text (p : Pointer) : Except InputError String := do
  let alloc ← allocText p.alloc
  let offset ← boundedDecimal p.offset
  return "Pointer(alloc_id=" ++ alloc ++ ", offset=" ++ offset ++ ")"

end Pointer
end ScalarEval
