import ScalarEval.Command.Argument
import ScalarEval.Failure
import ScalarEval.Kind
import ScalarEval.Operator

/-! What a command line asks for. Options of the program stand before the command, options of
a command anywhere after it. Ambiguous arguments are reported before any argument takes
effect, and other misuse where an argument cannot be accepted; an argument that belongs
nowhere is reported only after all others. -/
namespace ScalarEval

inductive Command where
  | binary (op : BinaryOp) (kind : Kind) (left right : String) (rightKind : Option Kind)
  | unary (op : UnaryOp) (kind : Kind) (operand : String)
  | kinds
  /-- A command with a position left without text. The operand before that position is still
  read. -/
  | incomplete (before : Option (String × Kind)) (absence : Absence)
  deriving DecidableEq, Repr

namespace Command

structure Settings where
  verbose : Bool
  quiet : Bool
  logFile : Option String
  deriving DecidableEq, Repr

def Settings.initial : Settings :=
  ⟨false, false, none⟩

inductive Request where
  | help
  | version
  | misuse
  /-- No command at all. -/
  | nothing
  | run (s : Settings) (c : Command)
  deriving DecidableEq, Repr

/-- The options of a command. Only binary commands have a right kind. -/
inductive LocalOption where
  | help | rightKind
  deriving DecidableEq, Repr

/-- The arguments of a command: a test for each positional one, the spellings of its options,
and the command they make together with a right kind. A position may be without text. -/
structure Form where
  positionals : List (String → Bool)
  spellings : Spellings LocalOption
  command? : List (Option String) → Option Kind → Option Command

/-- Ends the options. -/
def separator : String := "--"

def isKindLabel (text : String) : Bool :=
  Kind.all.any fun k => k.label == text

def helpSpellings : Spellings LocalOption :=
  [("-h", .help), ("--help", .help)]

/-- A binary command. The left operand is read before a missing right one is noticed. -/
def binaryCommand (op : BinaryOp) (kind : Kind) (rightKind : Option Kind) :
    Option String → Option String → Command
  | some left, some right => .binary op kind left right rightKind
  | some left, none => .incomplete (some (left, kind)) (.operand (rightKind.getD kind))
  | none, _ => .incomplete none (.operand kind)

def unaryCommand (op : UnaryOp) (kind : Kind) : Option String → Command
  | some operand => .unary op kind operand
  | none => .incomplete none (.operand kind)

def binaryForm : Form where
  positionals := [fun t => (BinaryOp.ofLabel? t).isSome, isKindLabel, fun _ => true,
    fun _ => true]
  spellings := helpSpellings ++ [("--right-kind", .rightKind)]
  command?
    | [some op, some kind, left, right], rightKind => do
      return binaryCommand (← BinaryOp.ofLabel? op) (← Kind.ofLabel? kind) rightKind left right
    | [some _, none, _, _], _ => some (.incomplete none .kind)
    | _, _ => none

def unaryForm : Form where
  positionals := [fun t => (UnaryOp.ofLabel? t).isSome, isKindLabel, fun _ => true]
  spellings := helpSpellings
  command?
    | [some op, some kind, operand], _ => do
      return unaryCommand (← UnaryOp.ofLabel? op) (← Kind.ofLabel? kind) operand
    | [some _, none, _], _ => some (.incomplete none .kind)
    | _, _ => none

def kindsForm : Form where
  positionals := []
  spellings := helpSpellings
  command? := fun _ _ => some .kinds

def form? : String → Option Form
  | "bin" => some binaryForm
  | "un" => some unaryForm
  | "kinds" => some kindsForm
  | _ => none

/-- What has been read of a command. -/
structure Progress where
  pending : List (String → Bool)
  found : List (Option String)
  rightKind : Option Kind
  /-- Whether every argument so far belongs somewhere. -/
  tidy : Bool
  /-- Whether the last argument was accepted as positional. -/
  adjacent : Bool

/-- How the arguments of a command end. -/
inductive Tail where
  | help
  | misuse
  | complete (found : List (Option String)) (rightKind : Option Kind) (tidy : Bool)

namespace Progress

/-- The next positional argument, or one too many. Only present text is tested. -/
def accept? (p : Progress) (text : Option String) : Option Progress :=
  match p.pending with
  | [] => some { p with tidy := false, adjacent := false }
  | test :: pending =>
    if text.all test then
      some { p with pending, found := p.found ++ [text], adjacent := true }
    else none

/-- The label of the right kind. Only labels of kinds are accepted. -/
def withRightKind? (p : Progress) (label : String) : Option Progress :=
  if isKindLabel label then some { p with rightKind := Kind.ofLabel? label, adjacent := false }
  else none

def finish (p : Progress) : Tail :=
  if p.pending.isEmpty then .complete p.found p.rightKind p.tidy else .misuse

/-- Arguments after the separator are all positional. One more separator among them leaves its
position without text. -/
def readLiterals (p : Progress) : List String → Tail
  | [] => p.finish
  | a :: rest => match p.accept? (if a = separator then none else some a) with
    | some p => p.readLiterals rest
    | none => .misuse

/-- What follows the separator. The separator belongs to the positional argument just before
it, or else to the one after it, which then keeps its text in any case. -/
def readSeparated (p : Progress) (arguments : List String) : Tail :=
  if p.adjacent then p.readLiterals arguments
  else match arguments with
    | [] => { p with tidy := false }.finish
    | a :: rest => match p.accept? (some a) with
      | some p => p.readLiterals rest
      | none => .misuse

end Progress

/-- Reads the arguments of a command from left to right. -/
def readTail (s : Spellings LocalOption) (p : Progress) : List String → Tail
  | [] => p.finish
  | a :: rest =>
    if a = separator then p.readSeparated rest
    else match classify s a with
      | .positional => match p.accept? (some a) with
        | some p => readTail s p rest
        | none => .misuse
      | .option .help => .help
      | .option .rightKind => match rest with
        | [] => .misuse
        | label :: rest =>
          match if classify s label = .positional then p.withRightKind? label else none with
          | some p => readTail s p rest
          | none => .misuse
      | .assigned .rightKind text => match p.withRightKind? (String.ofList text) with
        | some p => readTail s p rest
        | none => .misuse
      -- Every letter is looked up before the first takes effect.
      | .cluster .help letters => if (s.letters? letters).isSome then .help else .misuse
      | .assigned .help _ | .cluster .rightKind _ | .ambiguous => .misuse
      | .unknown => readTail s { p with tidy := false, adjacent := false } rest

/-- Reads a command under settings. `tidy` says whether every argument before it belongs
somewhere. -/
def readCommand (settings : Settings) (tidy : Bool) (name : String) (arguments : List String) :
    Request :=
  match form? name with
  | none => .misuse
  | some f =>
    match readTail f.spellings ⟨f.positionals, [], none, true, false⟩ arguments with
    | .help => .help
    | .misuse => .misuse
    | .complete found rightKind rest =>
      if tidy && rest then
        match f.command? found rightKind with
        | some c => .run settings c
        | none => .misuse
      else .misuse

/-- The options of the program. -/
inductive GlobalOption where
  | help | version | verbose | quiet | logFile
  deriving DecidableEq, Repr

def globalSpellings : Spellings GlobalOption :=
  [("-h", .help), ("--help", .help), ("--version", .version), ("--verbose", .verbose),
   ("-v", .verbose), ("--quiet", .quiet), ("-q", .quiet), ("--log-file", .logFile)]

namespace Settings

/-- The empty path stands for no file. A separator after the equals sign is a path like others. -/
def withLogFile (s : Settings) (path : String) : Settings :=
  { s with logFile := if path.isEmpty then none else some path }

/-- The effect of an option without argument: on the settings, or as a request of its own. -/
def flag (s : Settings) : GlobalOption → Except Request Settings
  | .help => .error .help
  | .version => .error .version
  | .verbose => .ok { s with verbose := true }
  | .quiet => .ok { s with quiet := true }
  | .logFile => .error .misuse

end Settings

/-- Reads a command line from left to right up to its command. No separator may stand before
the command. -/
def readGlobals (s : Settings) (tidy : Bool) : List String → Request
  | [] => if tidy then .nothing else .misuse
  | a :: rest =>
    if a = separator then .misuse
    else match classify globalSpellings a with
      | .positional => readCommand s tidy a rest
      | .option .logFile => match rest with
        | [] => .misuse
        | path :: rest =>
          if classify globalSpellings path = .positional then
            readGlobals (s.withLogFile path) tidy rest
          else .misuse
      | .option o => match s.flag o with
        | .ok s => readGlobals s tidy rest
        | .error request => request
      | .assigned .logFile text => readGlobals (s.withLogFile (String.ofList text)) tidy rest
      | .cluster o letters => match globalSpellings.letters? letters with
        | none => .misuse
        | some os => match (o :: os).foldlM Settings.flag s with
          | .ok s => readGlobals s tidy rest
          | .error request => request
      | .assigned .. | .ambiguous => .misuse
      | .unknown => readGlobals s false rest

/-- Whether an argument is the start of two options. Arguments after a separator are not. -/
def hasAmbiguous (arguments : List String) : Bool :=
  (arguments.takeWhile (· ≠ separator)).any fun a => classify globalSpellings a = .ambiguous

/-- What the arguments of the program ask for. -/
def request (arguments : List String) : Request :=
  if hasAmbiguous arguments then .misuse else readGlobals .initial true arguments

end Command
end ScalarEval
