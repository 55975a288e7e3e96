import ScalarEval.Command.Level
import ScalarEval.Command.Request
import ScalarEval.Evaluate.Binary
import ScalarEval.Evaluate.Unary
import ScalarEval.Operand

/-! What a command line leaves behind: output, exit status, and the records of its log. -/
namespace ScalarEval

namespace Command

def programName : String := "primevalkit"

def versionText : String := programName ++ " 0.1.0\n"

/-- The name under which a source makes its records. -/
def sourceName : Source → String
  | .evaluator => "primeval.evaluator"
  | .command => programName

/-- A record as the console shows it. -/
def consoleLine (r : Record) : String :=
  "DEBUG: " ++ r.text ++ "\n"

/-- A record as a log file holds it, after the time. -/
def logLine (r : Record) : String :=
  sourceName r.source ++ " - DEBUG - " ++ r.text

/-- How a command line ends. -/
inductive Ending where
  /-- The usage text on standard output. -/
  | usage (status : Nat)
  /-- The usage text on standard error, with status 2. -/
  | misuse
  /-- The usage text and one more line on standard error, with status 2. -/
  | refused (line : String)
  | exit (status : Nat) (stdout stderr : String)
  /-- A violation is no outcome of a command and ends the program itself. -/
  | violated (v : Violation)
  | notALevel (n : NotALevel)
  | absent (a : Absence)
  deriving DecidableEq, Repr

structure Report where
  ending : Ending
  /-- The records shown on standard error, before anything that the ending writes there. -/
  console : List Record
  /-- The path of the log file and its records, if one is made. -/
  log : Option (String × List Record)
  deriving DecidableEq, Repr

/-- A text filled up with blanks on its right. -/
def padRight (width : Nat) (text : String) : String :=
  text ++ String.ofList (List.replicate (width - text.length) ' ')

def padLeft (width : Nat) (text : String) : String :=
  String.ofList (List.replicate (width - text.length) ' ') ++ text

def kindLine (k : Kind) : String :=
  padRight 5 k.label ++ " " ++ padLeft 3 (toString k.width) ++ " bits  " ++
    padRight 8 (if k.isSigned then "signed" else "unsigned") ++ "  " ++ k.category.label ++ "\n"

/-- Comparisons yield truth values, other operators values of the left kind. -/
def resultKind (op : BinaryOp) (left : Kind) : Kind :=
  if op.isComparison then .bool else left

/-- Evaluates a command to the text it prints. The operands are recorded before the operator
is applied to them. -/
def evaluate : Command → Evaluation String
  | .binary op kind left right rightKind => do
    let rightKind := rightKind.getD kind
    let l : Operand := ⟨← .ofInput (Operand.read left kind), kind⟩
    let r : Operand := ⟨← .ofInput (Operand.read right rightKind), rightKind⟩
    let leftText ← .ofInput l.describe
    let rightText ← .ofInput r.describe
    .note .command ("bin " ++ op.name ++ " " ++ leftText ++ " " ++ rightText)
    let result ← Evaluate.binary op l r
    let text ← .ofInput (Operand.describe ⟨result.value, resultKind op kind⟩)
    return text ++ " overflow=" ++ (if result.overflow then "true" else "false") ++ "\n"
  | .unary op kind operand => do
    let o : Operand := ⟨← .ofInput (Operand.read operand kind), kind⟩
    let operandText ← .ofInput o.describe
    .note .command ("un " ++ op.name ++ " " ++ operandText)
    let value ← Evaluate.unary op o
    let text ← .ofInput (Operand.describe ⟨value, kind⟩)
    return text ++ "\n"
  | .kinds => return String.join (Kind.all.map kindLine)
  | .incomplete before absence => do
    if let some (text, kind) := before then
      let _ ← .ofInput (Operand.read text kind)
    .fail (.absent absence)

def ending : Except Failure String → Ending
  | .ok text => .exit 0 text ""
  | .error (.evaluation e) => .exit 1 "" ("error: " ++ e.message ++ "\n")
  | .error (.violation v) => .violated v
  | .error (.input e) => .refused (programName ++ ": error: " ++ e.message ++ "\n")
  | .error (.absent a) => .absent a

/-- The record made of a failed evaluation. Other failures are not recorded. -/
def closingRecords : Except Failure String → List Record
  | .error (.evaluation e) => [⟨.command, "evaluation failed: " ++ e.className⟩]
  | _ => []

/-- Quiet comes before verbose, and both before the setting of the environment. -/
def Settings.level (s : Settings) (environment : Option String) : Except NotALevel Level :=
  if s.quiet then .ok .error
  else if s.verbose then .ok .debug
  else match environment with
    | some setting => Level.ofSetting setting
    | none => .ok .warning

/-- The level of the log itself and those of its handlers: the console, and a file at a path. -/
structure Logging where
  root : Level
  console : Level
  file : Option (String × Level)
  deriving DecidableEq, Repr

/-- A file is given every record, which the log itself must then let through. The console keeps
its own level. -/
def Settings.logging (s : Settings) (level : Level) : Logging :=
  ⟨if s.logFile.isSome then .debug else level, level, s.logFile.map (·, .debug)⟩

/-- The records that pass the log and then a handler of some level. -/
def Logging.handled (g : Logging) (handler : Level) (records : List Record) : List Record :=
  if g.root.showsDebug && handler.showsDebug then records else []

/-- Runs a command under its log. -/
def perform (s : Settings) (environment : Option String) (c : Command) : Report :=
  match s.level environment with
  | .error n => ⟨.notALevel n, [], none⟩
  | .ok level =>
    let log := s.logging level
    let result := c.evaluate
    let records := result.records ++ closingRecords result.outcome
    ⟨ending result.outcome, log.handled log.console records,
      log.file.map fun (path, handler) => (path, log.handled handler records)⟩

/-- The report on a command line. `environment` is the level set from outside, if any. -/
def report (environment : Option String) (arguments : List String) : Report :=
  match request arguments with
  | .help => ⟨.usage 0, [], none⟩
  | .version => ⟨.exit 0 versionText "", [], none⟩
  | .misuse => ⟨.misuse, [], none⟩
  | .nothing => ⟨.usage 1, [], none⟩
  | .run s c => perform s environment c

end Command
end ScalarEval
