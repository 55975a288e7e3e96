import ScalarEval.Ieee.Rounding
import ScalarEval.Text.Blank
import ScalarEval.Text.Grouping

/-! Floating-point numerals: their grammar, the pattern nearest to one, and the notation in
which results are written. -/
namespace ScalarEval.Ieee

-- One meaning of powers, whichever other instances are in scope.
attribute [local instance (high)] instPowNat

/-- `decimal s n e` is `n · 10 ^ e` under the sign `s`. -/
inductive Literal where
  | nan (negative : Bool)
  | infinite (negative : Bool)
  | decimal (negative : Bool) (digits : Nat) (exponent : Int)
  deriving DecidableEq, Repr

open Text

/-- The exponent part: `e`, a sign if any, and at least one digit. No part is exponent 0. -/
def readExponent? : List Char → Option Int
  | [] => some 0
  | c :: cs =>
    let (negative, ds) := splitSign cs
    if (c = 'e' ∨ c = 'E') ∧ ds ≠ [] ∧ ds.all isDecimalDigit then
      some (if negative then -(ofDigits 10 ds : Int) else ofDigits 10 ds)
    else none

/-- Digits with at most one point among or beside them, then an exponent part. -/
def readDecimal? (cs : List Char) : Option (Nat × Int) :=
  let whole := cs.takeWhile isDecimalDigit
  let afterWhole := cs.dropWhile isDecimalDigit
  let (fraction, rest) := match afterWhole with
    | '.' :: r => (r.takeWhile isDecimalDigit, r.dropWhile isDecimalDigit)
    | r => ([], r)
  if whole ++ fraction = [] then none
  else (readExponent? rest).map fun e => (ofDigits 10 (whole ++ fraction), e - fraction.length)

namespace Literal

/-- Reads a numeral without regard to white space at its ends and to letter case. -/
def ofText? (text : String) : Option Literal := do
  let cs ← ungroup? isDecimalDigit false (trim isWhiteSpace text.toList)
  let (negative, body) := splitSign cs
  let word := String.ofList (body.map Char.toLower)
  if word = "inf" ∨ word = "infinity" then return .infinite negative
  else if word = "nan" then return .nan negative
  else (readDecimal? body).map fun (n, e) => .decimal negative n e

/-- The pattern nearest to a literal. An exponent that alone decides for an infinity or for
zero does so before the power of ten is formed. -/
def nearest (F : Format) : Literal → Nat
  | .nan s => F.pattern s F.quietNaN
  | .infinite s => F.pattern s F.infinity
  | .decimal s n (.ofNat e) =>
    if n = 0 then F.pattern s 0
    else if 2 ^ (F.exponentBits - 1) ≤ e then F.pattern s F.infinity
    else F.ofRatio s (n * 10 ^ e) 1
  | .decimal s n (.negSucc k) =>
    if n.log2 + F.scale + 1 ≤ k then F.pattern s 0
    else F.ofRatio s n (10 ^ (k + 1))

/-- Digits under an exponent of ten: one digit before the point, and an exponent of a sign
and at least two digits. -/
def scientific (ds : List Char) (exponent : Int) : List Char :=
  let fraction := if ds.length ≤ 1 then [] else '.' :: ds.drop 1
  let power := Nat.toDigits 10 exponent.natAbs
  let filled := List.replicate (2 - power.length) '0' ++ power
  ds.take 1 ++ fraction ++ 'e' :: (if exponent < 0 then '-' else '+') :: filled

/-- Digits with the point after the first `point` places and a digit on either side of it. -/
def positional (ds : List Char) (point : Int) : List Char :=
  if point ≤ 0 then '0' :: '.' :: List.replicate point.natAbs '0' ++ ds
  else
    let whole := ds.take point.toNat
    let fraction := ds.drop point.toNat
    whole ++ List.replicate (point.toNat - whole.length) '0' ++
      '.' :: if fraction = [] then ['0'] else fraction

/-- Magnitudes from `10 ^ -4` and below `10 ^ 16` are written in positional notation. Final
zeros of the digits are not significant. -/
def renderDecimal (digits : Nat) (exponent : Int) : List Char :=
  if digits = 0 then ['0', '.', '0']
  else
    let ds := Nat.toDigits 10 digits
    let point := ds.length + exponent
    let significant := (ds.reverse.dropWhile (· = '0')).reverse
    if -4 < point ∧ point ≤ 16 then positional significant point
    else scientific significant (point - 1)

/-- A NaN is written without its sign. -/
def render : Literal → String
  | .nan _ => "nan"
  | .infinite s => if s then "-inf" else "inf"
  | .decimal s n e => String.ofList (if s then '-' :: renderDecimal n e else renderDecimal n e)

end Literal
end ScalarEval.Ieee
