import ScalarEval.Operator
import ScalarEval.Value
import ScalarEval.Text.Quoted

/-! Failures, by cause. An evaluation error is reported to the program under evaluation; a
violation means that operands were not what their kinds promise; an input error is a text or
number that denotes nothing, or a value that has no text; an absence is a text that is not
there at all. -/
namespace ScalarEval

/-- Errors carry the text that reports them where it depends on the operands. -/
inductive EvalError where
  | unimplementedBinary (op : BinaryOp) (left right : Operand) (text : String)
  | unimplementedUnary (op : UnaryOp) (operand : Operand) (text : String)
  | invalidPointerArithmetic (text : String)
  | readPointerAsBytes (text : String)
  | divisionByZero (op : Option BinaryOp)
  deriving DecidableEq, Repr

inductive Violation where
  | invalidBoolean (pattern : Int)
  | integerViewOfFloat (kind : Kind)
  | integerArithmeticAt (kind : Kind)
  | shiftAt (kind : Kind)
  /-- An operator without meaning on pointers into two allocations, with their texts. -/
  | unrelatedPointers (op : BinaryOp) (left right : String)
  deriving DecidableEq, Repr

inductive InputError where
  | unknownKind (label : String)
  | unknownBinaryOp (label : String)
  | unknownUnaryOp (label : String)
  | invalidInteger (base : Nat) (text : String)
  /-- A decimal numeral of more digits than the limit. -/
  | longNumeral (digits : Nat)
  /-- An integer whose decimal notation would exceed the limit. -/
  | longInteger
  | invalidFloat (text : String)
  | invalidBool (text : String)
  | notFloating (kind : Kind)
  | oversizedPattern (pattern : Int)
  deriving DecidableEq, Repr

/-- A position of a command line that is taken, but without text. -/
inductive Absence where
  | kind
  /-- An operand that was to be read at a kind. -/
  | operand (kind : Kind)
  deriving DecidableEq, Repr

inductive Failure where
  | evaluation (e : EvalError)
  | violation (v : Violation)
  | input (e : InputError)
  | absent (a : Absence)
  deriving DecidableEq, Repr

namespace EvalError

/-- Order between pointers into different allocations. -/
def unrelatedOrder : EvalError :=
  .invalidPointerArithmetic "attempted to do invalid arithmetic on pointers"

/-- A pointer where plain data is required. -/
def pointerAsData : EvalError :=
  .readPointerAsBytes
    "a raw memory access tried to access part of a pointer value as raw bytes"

/-- The class under which an error is logged. -/
def className : EvalError → String
  | unimplementedBinary .. | unimplementedUnary .. => "UnimplementedOperation"
  | invalidPointerArithmetic _ => "InvalidPointerArithmetic"
  | readPointerAsBytes _ => "ReadPointerAsBytes"
  | divisionByZero _ => "DivisionByZero"

def message : EvalError → String
  | unimplementedBinary _ _ _ text | unimplementedUnary _ _ text => text
  | invalidPointerArithmetic text | readPointerAsBytes text => text
  | divisionByZero op => "attempted " ++ op.elim "division" BinaryOp.name ++
      " with a divisor of zero"

end EvalError

def Violation.message : Violation → String
  | invalidBoolean n => "invalid boolean bit pattern: " ++ Text.hex n
  | integerViewOfFloat k => "integer view requested for float kind " ++ k.label
  | integerArithmeticAt k => "int_arithmetic called on non-integer kind " ++ k.label
  | shiftAt k => "bitshift lhs is not integral: " ++ k.label
  | unrelatedPointers op left right =>
    op.name ++ " on unrelated pointers " ++ left ++ ", " ++ right

/-- A rejected numeral is quoted up to this many characters. -/
def quotedNumeralLimit : Nat := 200

def InputError.message : InputError → String
  | unknownKind s => "unknown primitive kind: " ++ Text.quote s
  | unknownBinaryOp s => Text.quote s ++ " is not a valid BinOp"
  | unknownUnaryOp s => Text.quote s ++ " is not a valid UnOp"
  | invalidInteger base s => "invalid literal for int() with base " ++ toString base ++ ": " ++
      String.ofList ((Text.quotedChars s.toList).take quotedNumeralLimit)
  | longNumeral digits => "Exceeds the limit (" ++ toString Text.decimalLimit ++
      " digits) for integer string conversion: value has " ++ toString digits ++
      " digits; use sys.set_int_max_str_digits() to increase the limit"
  | longInteger => "Exceeds the limit (" ++ toString Text.decimalLimit ++
      " digits) for integer string conversion; use sys.set_int_max_str_digits()" ++
      " to increase the limit"
  | invalidFloat s => "could not convert string to float: " ++ Text.quote s
  | invalidBool s => "invalid bool operand: " ++ Text.quote s
  | notFloating k => "not a float kind: " ++ k.label
  | oversizedPattern n => "bit pattern does not fit the 64-bit container: " ++ Text.hex n

/-- What stands in place of the text is an empty list, and a list is none of the things that
a kind or an operand is read from. -/
def Absence.message : Absence → String
  | kind => "'list' object has no attribute 'lower'"
  | operand k =>
    if k.isFloating then "float() argument must be a string or a real number, not 'list'"
    else "'list' object has no attribute 'strip'"

def Failure.message : Failure → String
  | evaluation e => e.message
  | violation v => v.message
  | input e => e.message
  | absent a => a.message

end ScalarEval
