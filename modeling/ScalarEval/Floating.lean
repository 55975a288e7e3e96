import ScalarEval.Failure
import ScalarEval.Ieee.Arithmetic

/-! Values of the floating kinds. `f64` takes the whole word and `f32` its low half. A single
is handled as the double that equals it, and rounded where it is stored. -/
namespace ScalarEval

namespace Kind

/-- The format of the words of a floating kind. -/
def format? : Kind → Option Ieee.Format
  | f32 => some Ieee.binary32
  | f64 => some Ieee.binary64
  | _ => none

/-- The double that a word denotes at a floating kind, as a pattern. -/
def toDouble (k : Kind) (w : BitVec 64) : Nat :=
  if k = f32 then Ieee.widen w.toNat else w.toNat

/-- The word in which a double is stored at a floating kind. -/
def ofDouble (k : Kind) (p : Nat) : BitVec 64 :=
  BitVec.ofNat 64 (if k = f32 then Ieee.narrow p else p)

/-- Only floating kinds have doubles. -/
def floatView (k : Kind) (view : α) : Except InputError α :=
  if k.isFloating then .ok view else .error (.notFloating k)

end Kind

namespace Value

def toDouble (v : Value) (k : Kind) : Except InputError Nat :=
  k.floatView (k.toDouble v.bits)

def ofDouble (p : Nat) (k : Kind) : Except InputError Value :=
  k.floatView (ofBits (k.ofDouble p))

end Value
end ScalarEval
