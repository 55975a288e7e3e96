import ScalarEval.Command.Report
import Std.Time.Format

/-! The program: reports on its arguments and writes what the report says. -/
namespace ScalarEval.Command

def usageText : String :=
  "usage: " ++ programName ++ " [-h] [--version] [-v] [-q] [--log-file PATH] command ...\n" ++
  "  bin OP KIND LEFT RIGHT [--right-kind KIND]  evaluate a binary operator\n" ++
  "  un OP KIND VALUE                            evaluate a unary operator\n" ++
  "  kinds                                       list primitive kinds\n" ++
  "kinds: " ++ ", ".intercalate (Kind.all.map Kind.label) ++ "\n"

def levelVariable : String := "PRIMEVAL_LOG_LEVEL"

/-- Appends records to a log file under the present time. Missing directories are made. -/
def writeLog (path : String) (records : List Record) : IO Unit := do
  let directories := (path.splitOn "/").dropLast
  unless directories.all String.isEmpty do
    IO.FS.createDirAll ("/".intercalate directories)
  let file ← IO.FS.Handle.mk path .append
  for r in records do
    let now ← Std.Time.PlainDateTime.now
    file.putStrLn (now.format "uuuu-MM-dd HH:mm:ss,SSS" ++ " - " ++ logLine r)

def writeEnding : Ending → IO UInt32
  | .usage status => do
    IO.print usageText
    return UInt32.ofNat status
  | .misuse => do
    IO.eprint usageText
    return 2
  | .refused line => do
    IO.eprint usageText
    IO.eprint line
    return 2
  | .exit status stdout stderr => do
    IO.print stdout
    IO.eprint stderr
    return UInt32.ofNat status
  | .violated v => do
    IO.eprintln ("InternalInvariantViolation: " ++ v.message)
    return 1
  | .notALevel n => do
    IO.eprintln n.message
    return 1
  | .absent a => do
    IO.eprintln a.message
    return 1

end ScalarEval.Command

def main (arguments : List String) : IO UInt32 := do
  let environment ← IO.getEnv ScalarEval.Command.levelVariable
  let r := ScalarEval.Command.report environment arguments
  if let some (path, records) := r.log then
    ScalarEval.Command.writeLog path records
  for record in r.console do
    IO.eprint (ScalarEval.Command.consoleLine record)
  ScalarEval.Command.writeEnding r.ending
