/-! Capital letters. -/
namespace ScalarEval.Text

/-- The capitals of a character, as far as they are ASCII letters. Apart from the ASCII
letters these are a dotless i, a long s, a sharp s and the ligatures of f and of s. -/
def capitals (c : Char) : List Char :=
  match c.toNat with
  | 0xdf => ['S', 'S']
  | 0x131 => ['I']
  | 0x17f => ['S']
  | 0xfb00 => ['F', 'F']
  | 0xfb01 => ['F', 'I']
  | 0xfb02 => ['F', 'L']
  | 0xfb03 => ['F', 'F', 'I']
  | 0xfb04 => ['F', 'F', 'L']
  | 0xfb05 | 0xfb06 => ['S', 'T']
  | _ => [c.toUpper]

def capitalize (text : String) : String :=
  String.ofList (text.toList.flatMap capitals)

end ScalarEval.Text
