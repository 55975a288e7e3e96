/-! Operators, grouped by the rule that evaluates them. Labels name operators in commands,
names in messages. -/
namespace ScalarEval

inductive Arithmetic where
  | add | sub | mul | div | rem
  deriving DecidableEq, Repr

inductive Bitwise where
  | or | and | xor
  deriving DecidableEq, Repr

inductive Shift where
  | left | right
  deriving DecidableEq, Repr

inductive Comparison where
  | eq | ne | lt | le | gt | ge
  deriving DecidableEq, Repr

inductive BinaryOp where
  | arithmetic (op : Arithmetic)
  | bitwise (op : Bitwise)
  | shift (op : Shift)
  | comparison (op : Comparison)
  deriving DecidableEq, Repr

inductive UnaryOp where
  | not | neg
  deriving DecidableEq, Repr

namespace Comparison

/-- Whether a comparison needs an order; `eq` and `ne` do not. -/
def isOrdering : Comparison → Bool
  | eq | ne => false
  | _ => true

/-- Whether a comparison is true of operands in a given order, `none` being unordered. -/
def holds : Comparison → Option Ordering → Bool
  | eq, o => o == some .eq
  | ne, o => o != some .eq
  | lt, o => o == some .lt
  | le, o => o == some .lt || o == some .eq
  | gt, o => o == some .gt
  | ge, o => o == some .gt || o == some .eq

end Comparison

namespace BinaryOp

/-- Every operator, in the order in which they are listed. -/
def all : List BinaryOp :=
  [.arithmetic .add, .arithmetic .sub, .arithmetic .mul, .arithmetic .div, .arithmetic .rem,
   .bitwise .or, .bitwise .and, .bitwise .xor, .shift .left, .shift .right,
   .comparison .eq, .comparison .ne, .comparison .lt, .comparison .le, .comparison .gt,
   .comparison .ge]

def label : BinaryOp → String
  | .arithmetic .add => "add"
  | .arithmetic .sub => "sub"
  | .arithmetic .mul => "mul"
  | .arithmetic .div => "div"
  | .arithmetic .rem => "rem"
  | .bitwise .or => "bitor"
  | .bitwise .and => "bitand"
  | .bitwise .xor => "bitxor"
  | .shift .left => "shl"
  | .shift .right => "shr"
  | .comparison .eq => "eq"
  | .comparison .ne => "ne"
  | .comparison .lt => "lt"
  | .comparison .le => "le"
  | .comparison .gt => "gt"
  | .comparison .ge => "ge"

def name : BinaryOp → String
  | .arithmetic .add => "ADD"
  | .arithmetic .sub => "SUB"
  | .arithmetic .mul => "MUL"
  | .arithmetic .div => "DIV"
  | .arithmetic .rem => "REM"
  | .bitwise .or => "BIT_OR"
  | .bitwise .and => "BIT_AND"
  | .bitwise .xor => "BIT_XOR"
  | .shift .left => "SHL"
  | .shift .right => "SHR"
  | .comparison .eq => "EQ"
  | .comparison .ne => "NE"
  | .comparison .lt => "LT"
  | .comparison .le => "LE"
  | .comparison .gt => "GT"
  | .comparison .ge => "GE"

/-- Labels of operators are read in lower case only. -/
def ofLabel? (text : String) : Option BinaryOp :=
  all.find? fun op => op.label == text

def isComparison : BinaryOp → Bool
  | .comparison _ => true
  | _ => false

end BinaryOp

namespace UnaryOp

def all : List UnaryOp :=
  [not, neg]

def label : UnaryOp → String
  | not => "not"
  | neg => "neg"

def name : UnaryOp → String
  | not => "NOT"
  | neg => "NEG"

def ofLabel? (text : String) : Option UnaryOp :=
  all.find? fun op => op.label == text

end UnaryOp
end ScalarEval
