import ScalarEval.Text.Capital

/-! Levels of the console log. Every record of this program is made for debugging, so a level
decides only whether records are shown. -/
namespace ScalarEval.Command

inductive Level where
  | critical | error | warning | info | debug | notset
  deriving DecidableEq, Repr

/-- Names that the log facility has for its default format and its table of formats. They are
found where a level is looked up and are none. -/
inductive NotALevel where
  | basicFormat | styles
  deriving DecidableEq, Repr

namespace Level

def rank : Level → Nat
  | critical => 50
  | error => 40
  | warning => 30
  | info => 20
  | debug => 10
  | notset => 0

/-- Whether records made for debugging reach the level. -/
def showsDebug (l : Level) : Bool :=
  l.rank ≤ debug.rank

/-- The level that a setting names in any letter case; a text that names nothing stands for
`warning`. -/
def ofSetting (setting : String) : Except NotALevel Level :=
  match Text.capitalize setting with
  | "CRITICAL" | "FATAL" => .ok critical
  | "ERROR" => .ok error
  | "WARNING" | "WARN" => .ok warning
  | "INFO" => .ok info
  | "DEBUG" => .ok debug
  | "NOTSET" => .ok notset
  | "BASIC_FORMAT" => .error .basicFormat
  | "_STYLES" => .error .styles
  | _ => .ok warning

end Level

def NotALevel.message : NotALevel → String
  | basicFormat => "Unknown level: '%(levelname)s:%(name)s:%(message)s'"
  | styles =>
    "Level not an integer or a valid string: \x7b" ++
    "'%': (<class 'logging.PercentStyle'>, '%(levelname)s:%(name)s:%(message)s'), " ++
    "'\x7b': (<class 'logging.StrFormatStyle'>, " ++
    "'\x7blevelname\x7d:\x7bname\x7d:\x7bmessage\x7d'), " ++
    "'$': (<class 'logging.StringTemplateStyle'>, " ++
    "'$\x7blevelname\x7d:$\x7bname\x7d:$\x7bmessage\x7d')\x7d"

end ScalarEval.Command
