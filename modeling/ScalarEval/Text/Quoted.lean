import ScalarEval.Text.Printable
import ScalarEval.Text.Radix

/-! Quoted text in messages: printable characters stand for themselves, all others are
escaped, and the quotation mark is chosen so that as few as possible need a backslash. -/
namespace ScalarEval.Text

/-- Hexadecimal digits filled up with zeros. -/
def paddedHex (width n : Nat) : List Char :=
  let ds := hexDigits n
  List.replicate (width - ds.length) '0' ++ ds

/-- A character as it stands between quotation marks `mark`. -/
def escape (mark c : Char) : List Char :=
  if c = mark ∨ c = '\\' then ['\\', c]
  else if c = '\n' then ['\\', 'n']
  else if c = '\t' then ['\\', 't']
  else if c = '\r' then ['\\', 'r']
  else if isPrintable c then [c]
  else if c.toNat < 0x100 then '\\' :: 'x' :: paddedHex 2 c.toNat
  else if c.toNat < 0x10000 then '\\' :: 'u' :: paddedHex 4 c.toNat
  else '\\' :: 'U' :: paddedHex 8 c.toNat

/-- Double quotation marks are used only around a text that has single and no double ones. -/
def quotationMark (cs : List Char) : Char :=
  if cs.contains '\'' && !cs.contains '"' then '"' else '\''

def quotedChars (cs : List Char) : List Char :=
  let mark := quotationMark cs
  mark :: cs.flatMap (escape mark) ++ [mark]

def quote (s : String) : String :=
  String.ofList (quotedChars s.toList)

end ScalarEval.Text
