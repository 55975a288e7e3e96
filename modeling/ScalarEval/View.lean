import ScalarEval.Failure

/-! Views of words that not every word or kind has. -/
namespace ScalarEval

/-- Floating kinds have no integers: what is made of one is refused. -/
def Kind.integerView (k : Kind) (view : α) : Except Violation α :=
  if k.isFloating then .error (.integerViewOfFloat k) else .ok view

/-- The integer that a pointer stands for, which only plain data do. -/
def Pointer.toInt (p : Pointer) : Except EvalError Int :=
  if p.pointsToAlloc then .error .pointerAsData else .ok p.offset

/-- Truth values are 0 and 1; larger patterns are refused and negative ones are false. -/
def readBool (pattern : Int) : Except Violation Bool :=
  if 1 < pattern then .error (.invalidBoolean pattern) else .ok (pattern == 1)

namespace Value

def toBool (v : Value) : Except Violation Bool :=
  readBool v.bits.toNat

/-- A value made of a pattern that must fit the word. -/
def ofPattern (pattern : Int) (alloc : Option AllocId) : Except InputError Value :=
  if 0 ≤ pattern ∧ pattern ≤ 0xffffffffffffffff then .ok ⟨BitVec.ofInt 64 pattern, alloc⟩
  else .error (.oversizedPattern pattern)

end Value
end ScalarEval
