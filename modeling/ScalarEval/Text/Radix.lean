/-! Integers in positional notation. -/
namespace ScalarEval.Text

-- One meaning of powers, whichever other instances are in scope.
attribute [local instance (high)] instPowNat

def hexDigits (n : Nat) : List Char :=
  Nat.toDigits 16 n

/-- A sign in front of the notation of the absolute value; zero has none. -/
def withSign (n : Int) (magnitude : Nat → List Char) : String :=
  String.ofList (if n < 0 then '-' :: magnitude n.natAbs else magnitude n.natAbs)

def decimal (n : Int) : String :=
  withSign n (Nat.toDigits 10)

/-- Lower-case hexadecimal under the prefix `0x`, with the sign before it. -/
def hex (n : Int) : String :=
  withSign n fun m => '0' :: 'x' :: hexDigits m

/-- Decimal notation stops at this many digits, in both directions. -/
def decimalLimit : Nat := 4300

def exceedsDecimalLimit (n : Int) : Bool :=
  10 ^ decimalLimit ≤ n.natAbs

end ScalarEval.Text
