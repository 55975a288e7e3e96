import ScalarEval.Failure
import ScalarEval.Text.Blank
import ScalarEval.Text.Grouping

/-! Reading integers. A numeral of a base has digits of any script; an integer may also be
written in decimal, in hexadecimal after `0x`, or in hexadecimal after `$`. -/
namespace ScalarEval.Numeral

open Text

/-- What follows the prefix `0x`, less one underscore; without the prefix the whole. -/
def dropHexPrefix : List Char → List Char
  | z :: x :: cs =>
    if decimalValue? z = some 0 ∧ (x = 'x' ∨ x = 'X') then
      match cs with
      | '_' :: ds => ds
      | ds => ds
    else z :: x :: cs
  | cs => cs

def isDigitOf (base : Nat) (c : Char) : Bool :=
  (digitValue? c).any (· < base)

/-- The digits that a numeral without sign starts with, ungrouped, and what follows them. -/
def digits? (base : Nat) (cs : List Char) : Option (List Char × List Char) := do
  let body := if base = 16 then dropHexPrefix cs else cs
  let isPart c := isDigitOf base c || c = '_'
  return (← ungroup? (isDigitOf base) false (body.takeWhile isPart), body.dropWhile isPart)

/-- A numeral with at most one sign and with white space at its ends. The limit on digits
holds for decimal numerals and is checked before anything that follows the digits. -/
def readBase (base : Nat) (cs : List Char) : Except InputError Int :=
  let (negative, body) := splitSign (trim isWhiteSpace cs)
  match digits? base body with
  | none => .error (.invalidInteger base (String.ofList cs))
  | some (ds, rest) =>
    if base = 10 ∧ decimalLimit < ds.length then .error (.longNumeral ds.length)
    else if ds = [] ∨ rest ≠ [] then .error (.invalidInteger base (String.ofList cs))
    else .ok (if negative then -(ofDigits base ds : Int) else ofDigits base ds)

/-- A numeral in one of the three notations, the notation shown by its first characters. -/
def readNotation : List Char → Except InputError Int
  | '$' :: cs => readBase 16 cs
  | '0' :: 'x' :: cs => readBase 16 ('0' :: 'x' :: cs)
  | '0' :: 'X' :: cs => readBase 16 ('0' :: 'X' :: cs)
  | cs => readBase 10 cs

/-- An integer argument: a minus may stand before any of the three notations. -/
def read (cs : List Char) : Except InputError Int :=
  match trim isBlank cs with
  | '-' :: ds => (readNotation ds).map (- ·)
  | ds => readNotation ds

end ScalarEval.Numeral
