import ScalarEval.Text.DecimalDigit

/-! Arguments of a command line. An argument that starts with a dash is an option unless it is
a dash alone, a negative number, or holds a space. -/
namespace ScalarEval.Command

open Text

/-- How an argument counts. -/
inductive Argument (α : Type) where
  | positional
  /-- An option with nothing attached to it. -/
  | option (o : α)
  /-- An option and what follows its first equals sign. -/
  | assigned (o : α) (text : List Char)
  /-- A one-letter option and the characters that follow it, at once or after an equals sign. -/
  | cluster (o : α) (rest : List Char)
  | ambiguous
  | unknown
  deriving DecidableEq, Repr

/-- The spellings of options, dashes included. -/
abbrev Spellings (α : Type) := List (String × α)

namespace Spellings

def lookup? (s : Spellings α) (spelling : List Char) : Option α :=
  (s.find? fun e => e.1.toList == spelling).map (·.2)

/-- The options with a spelling that starts with the given characters. -/
def abbreviated (s : Spellings α) (start : List Char) : List α :=
  (s.filter fun e => start.isPrefixOf e.1.toList).map (·.2)

def letter? (s : Spellings α) (c : Char) : Option α :=
  s.lookup? ['-', c]

/-- The letters of a cluster as options, all of which must be known. -/
def letters? (s : Spellings α) (cs : List Char) : Option (List α) :=
  cs.mapM s.letter?

end Spellings

/-- A minus and digits, with at most one point, which needs a digit after it. A final line
feed is passed over. -/
def isNegativeNumber : List Char → Bool
  | '-' :: cs =>
    let body := if cs.getLast? = some '\n' then cs.dropLast else cs
    let whole := body.takeWhile isDecimalDigit
    match body.dropWhile isDecimalDigit with
    | [] => !whole.isEmpty
    | '.' :: ds => !ds.isEmpty && ds.all isDecimalDigit
    | _ => false
  | _ => false

/-- An option in front of its equals sign, if the argument has one. After a one-letter option
an equals sign that text follows is passed over, so that `-v=q` is `-vq`. A stricter reader of
arguments refuses it, and then accepts only some of the lines that are accepted here. -/
def assignment? (s : Spellings α) (cs : List Char) : Option (Argument α) :=
  match cs.takeWhile (· ≠ '='), cs.dropWhile (· ≠ '=') with
  | _, [] => none
  | ['-', c], _ :: t :: text => (s.letter? c).map (.cluster · (t :: text))
  | spelling, _ :: text => (s.lookup? spelling).map (.assigned · text)

/-- A spelling cut short. One-letter options are not cut, but may be followed by text. -/
def abbreviation? (s : Spellings α) : List Char → Option (Argument α)
  | '-' :: '-' :: cs =>
    match s.abbreviated ('-' :: '-' :: cs.takeWhile (· ≠ '=')), cs.dropWhile (· ≠ '=') with
    | [], _ => none
    | [o], [] => some (.option o)
    | [o], _ :: text => some (.assigned o text)
    | _, _ => some .ambiguous
  | '-' :: c :: cs => (s.letter? c).map (.cluster · cs)
  | _ => none

def classify (s : Spellings α) (argument : String) : Argument α :=
  let cs := argument.toList
  match cs with
  | '-' :: _ :: _ =>
    match s.lookup? cs with
    | some o => .option o
    | none =>
      match (assignment? s cs).or (abbreviation? s cs) with
      | some a => a
      | none => if isNegativeNumber cs ∨ cs.contains ' ' then .positional else .unknown
  | _ => .positional

end ScalarEval.Command
