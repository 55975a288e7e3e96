import ScalarEval.Kind

/-! Values: a 64-bit word, and for a genuine pointer the allocation into which the word is an
offset. A value does not know its kind; an operand is a value passed with one. -/
namespace ScalarEval

/-- Allocations are told apart by a number or by a name. The number 1 and the name `1` are
different allocations. -/
inductive AllocId where
  | number (n : Int)
  | name (s : String)
  deriving DecidableEq, Repr

/-- A place: an offset into an allocation. Without an allocation it is a plain integer. -/
structure Pointer where
  alloc : Option AllocId
  offset : Int
  deriving DecidableEq, Repr

structure Value where
  bits : BitVec 64
  alloc : Option AllocId
  deriving DecidableEq, Repr

structure Operand where
  value : Value
  kind : Kind
  deriving DecidableEq, Repr

namespace Pointer

/-- An integer in pointer form. -/
def ofInt (n : Int) : Pointer :=
  ⟨none, n⟩

def pointsToAlloc (p : Pointer) : Bool :=
  p.alloc.isSome

end Pointer

namespace Value

/-- Plain data. -/
def ofBits (w : BitVec 64) : Value :=
  ⟨w, none⟩

def ofBool (b : Bool) : Value :=
  ofBits (if b then 1 else 0)

/-- The offset is stored modulo `2 ^ 64`. -/
def ofPointer (p : Pointer) : Value :=
  ⟨BitVec.ofInt 64 p.offset, p.alloc⟩

/-- `n` stored at an integer kind. -/
def ofInt (n : Int) (k : Kind) : Value :=
  ofBits (k.extend n)

def isPointer (v : Value) : Bool :=
  v.alloc.isSome

/-- The offset of a value is its word, read as unsigned. -/
def toPointer (v : Value) : Pointer :=
  ⟨v.alloc, v.bits.toNat⟩

/-- The word read at the width and signedness of a kind. -/
def read (v : Value) (k : Kind) : Int :=
  k.wrap v.bits.toNat

end Value
end ScalarEval
