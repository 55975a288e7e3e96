/-! Scalar kinds. A kind fixes the width of its values, whether they are read as signed, and
which operators are defined on them. -/
namespace ScalarEval

-- One meaning of powers, whichever other instances are in scope.
attribute [local instance (high)] instPowNat

inductive Category where
  | boolean | integer | floating | pointer
  deriving DecidableEq, Repr

inductive Kind where
  | bool | i8 | i16 | i32 | i64 | u8 | u16 | u32 | u64 | f32 | f64 | ptr
  deriving DecidableEq, Repr

def Category.label : Category → String
  | .boolean => "bool"
  | .integer => "int"
  | .floating => "float"
  | .pointer => "ptr"

namespace Kind

/-- Every kind, in the order in which they are listed. -/
def all : List Kind :=
  [bool, i8, i16, i32, i64, u8, u16, u32, u64, f32, f64, ptr]

def label : Kind → String
  | bool => "bool"
  | i8 => "i8"
  | i16 => "i16"
  | i32 => "i32"
  | i64 => "i64"
  | u8 => "u8"
  | u16 => "u16"
  | u32 => "u32"
  | u64 => "u64"
  | f32 => "f32"
  | f64 => "f64"
  | ptr => "ptr"

/-- The name of a kind is its label in capitals. -/
def name (k : Kind) : String :=
  k.label.toUpper

def width : Kind → Nat
  | bool => 1
  | i8 | u8 => 8
  | i16 | u16 => 16
  | i32 | u32 | f32 => 32
  | i64 | u64 | f64 | ptr => 64

def isSigned : Kind → Bool
  | i8 | i16 | i32 | i64 | f32 | f64 => true
  | _ => false

def category : Kind → Category
  | bool => .boolean
  | f32 | f64 => .floating
  | ptr => .pointer
  | _ => .integer

def isInteger (k : Kind) : Bool :=
  k.category == .integer

def isSignedInteger (k : Kind) : Bool :=
  k.isInteger && k.isSigned

def isFloating (k : Kind) : Bool :=
  k.category == .floating

/-- Exactly the labels name kinds, in any letter case. -/
def ofLabel? (text : String) : Option Kind :=
  all.find? fun k => k.label == text.toLower

/-- The bounds of the integers that fit a width. A floating kind has those of a signed
integer of its width. -/
def minValue (k : Kind) : Int :=
  if k.isSigned then -(2 ^ (k.width - 1) : Nat) else 0

def maxValue (k : Kind) : Int :=
  (2 ^ (if k.isSigned then k.width - 1 else k.width) : Nat) - 1

def fits (k : Kind) (n : Int) : Bool :=
  k.minValue ≤ n && n ≤ k.maxValue

/-- The integer congruent to `n` modulo `2 ^ width` within the bounds of the kind. -/
def wrap (k : Kind) (n : Int) : Int :=
  if k.isSigned then n.bmod (2 ^ k.width) else n % (2 ^ k.width : Nat)

/-- The 64-bit word in which `n` is stored: wrapped, then extended by sign or by zeros. -/
def extend (k : Kind) (n : Int) : BitVec 64 :=
  BitVec.ofInt 64 (k.wrap n)

end Kind
end ScalarEval
