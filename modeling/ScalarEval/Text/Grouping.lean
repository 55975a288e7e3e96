import ScalarEval.Text.DecimalDigit

/-! Digits grouped by underscores, and what stands in front of them. -/
namespace ScalarEval.Text

/-- Removes underscores, each of which must stand between two digits. The flag says whether
a digit came before. -/
def ungroup? (isDigit : Char → Bool) : Bool → List Char → Option (List Char)
  | _, [] => some []
  | afterDigit, c :: cs =>
    if c = '_' then
      if afterDigit && cs.head?.any isDigit then ungroup? isDigit false cs else none
    else (ungroup? isDigit (isDigit c) cs).map (c :: ·)

/-- Splits off one sign and tells whether it is a minus. -/
def splitSign : List Char → Bool × List Char
  | '-' :: cs => (true, cs)
  | '+' :: cs => (false, cs)
  | cs => (false, cs)

/-- The number that digits denote in a base. -/
def ofDigits (base : Nat) (cs : List Char) : Nat :=
  cs.foldl (fun n c => base * n + (digitValue? c).getD 0) 0

end ScalarEval.Text
