import Mathlib
import ScalarEval.Proofs.Start

/-! Records of the log. The evaluator records a rejection where it arises, once and under the name
of the operator, and nothing else. A command records its own line before the evaluation and one
more after a rejection, so the records alone tell how it went. -/
namespace ScalarEval

/-- A text in which a name occurs. -/
def Mentions (text name : String) : Prop :=
  name.toList <:+: text.toList

namespace Mentions
variable {text name : String}

theorem self (name : String) : Mentions name name :=
  List.infix_rfl

theorem before (h : Mentions text name) (t : String) : Mentions (text ++ t) name := by
  unfold Mentions
  rw [String.toList_append]
  exact h.trans (List.prefix_append _ _).isInfix

theorem behind (h : Mentions text name) (t : String) : Mentions (t ++ text) name := by
  unfold Mentions
  rw [String.toList_append]
  exact h.trans (List.suffix_append _ _).isInfix

end Mentions

namespace Evaluation
variable {α β : Type} {operator : String}

/-- A rejection is recorded once, under the name of the operator, and nothing else is. -/
def LogsRejection (operator : String) (x : Evaluation α) : Prop :=
  match x.outcome with
  | .error (.evaluation _) => ∃ text, Mentions text operator ∧ x.records = [⟨.evaluator, text⟩]
  | _ => x.records = []

theorem logsRejection_done (a : α) : (done a).LogsRejection operator := rfl

theorem logsRejection_violation (v : Violation) :
    (fail (.violation v) : Evaluation α).LogsRejection operator := rfl

theorem logsRejection_ofInput (e : Except InputError α) :
    (ofInput e).LogsRejection operator := by
  cases e <;> rfl

theorem logsRejection_ofViolation (e : Except Violation α) :
    (ofViolation e).LogsRejection operator := by
  cases e <;> rfl

theorem logsRejection_reject {text : String} (h : Mentions text operator) (e : EvalError) :
    (reject (.ok text) e : Evaluation α).LogsRejection operator :=
  ⟨text, h, rfl⟩

/-- What succeeds has no records, so those of a sequence are the records of the step that fails. -/
theorem LogsRejection.bind {x : Evaluation α} {f : α → Evaluation β}
    (hx : x.LogsRejection operator) (hf : ∀ a, (f a).LogsRejection operator) :
    (x >>= f).LogsRejection operator := by
  obtain ⟨records, outcome⟩ := x
  -- After a failure nothing more is recorded, whatever its cause.
  cases outcome with
  | ok a =>
    obtain rfl : records = [] := hx
    exact hf a
  | error e => cases e <;> exact hx

end Evaluation

namespace Evaluate
variable {α : Type} {l r : Operand}

open Evaluation

theorem logsRejection_unimplementedBinary (op : BinaryOp) (l r : Operand) :
    (unimplementedBinary op l r : Evaluation α).LogsRejection op.name := by
  refine (logsRejection_ofInput _).bind fun _ => (logsRejection_ofInput _).bind fun _ => ?_
  exact logsRejection_reject ((Mentions.self op.name).behind _) _

theorem logsRejection_unimplementedUnary (op : UnaryOp) (o : Operand) :
    (unimplementedUnary op o : Evaluation α).LogsRejection op.name := by
  refine (logsRejection_ofInput _).bind fun t => logsRejection_reject ?_ _
  exact (((Mentions.self op.name).behind "unimplemented unary op: ").before ", ").before t

theorem logsRejection_integerArithmetic (op : Arithmetic) (k : Kind) (l r : ℤ) :
    (integerArithmetic op k l r).LogsRejection (BinaryOp.arithmetic op).name := by
  unfold integerArithmetic
  dsimp only
  split_ifs
  · exact logsRejection_violation _
  · exact logsRejection_reject (((Mentions.self _).before " by zero at ").before k.label) _
  · exact logsRejection_done _

theorem logsRejection_binaryAt (op : BinaryOp) (k : Kind) (l r : Value) :
    (binaryAt op k l r).LogsRejection op.name := by
  cases op with
  | comparison c => exact logsRejection_done _
  | bitwise b => exact logsRejection_done _
  | arithmetic a =>
    simp only [binaryAt]
    split
    · exact logsRejection_done _
    · exact logsRejection_integerArithmetic a k _ _
    · exact logsRejection_unimplementedBinary _ _ _
  | shift s => exact logsRejection_unimplementedBinary _ _ _

theorem logsRejection_shift (op : Shift) (l r : Operand) :
    (shift op l r).LogsRejection (BinaryOp.shift op).name := by
  unfold shift
  split
  · exact logsRejection_ofViolation _
  · exact logsRejection_violation _

/-- A rejection of pointers is recorded with their texts, so it is recorded where they have some. -/
theorem logsRejection_unrelated (op : BinaryOp) {v w : Value} (hv : v.HasText) (hw : w.HasText) :
    (unrelated op v.toPointer w.toPointer).LogsRejection op.name := by
  obtain ⟨s, hs⟩ := Value.text_toPointer hv
  obtain ⟨t, ht⟩ := Value.text_toPointer hw
  have htexts : ∀ f, unrelated.texts v.toPointer w.toPointer f = .ok (f s t) := by
    intro f
    unfold unrelated.texts
    rw [hs, ht]
    rfl
  cases op with
  | comparison c =>
    cases c with
    | eq | ne => exact logsRejection_done _
    | lt | le | gt | ge =>
      simp only [unrelated, htexts]
      refine logsRejection_reject ?_ _
      exact ((((Mentions.self _).behind _).before _).before s |>.before ", ").before t
  | arithmetic _ | bitwise _ | shift _ =>
    simp only [unrelated, htexts]
    split
    · refine logsRejection_reject ?_ _
      exact (((Mentions.self _).before _).before s |>.before ", ").before t
    · refine (logsRejection_ofInput _).bind fun _ => (logsRejection_ofInput _).bind fun _ => ?_
      exact logsRejection_violation _

theorem logsRejection_binary (op : BinaryOp) (hl : l.value.HasText) (hr : r.value.HasText) :
    (binary op l r).LogsRejection op.name := by
  unfold binary
  split
  · exact (logsRejection_unrelated op hl hr).bind fun v => logsRejection_done _
  · cases op with
    | shift s => exact logsRejection_shift s l r
    | comparison _ | bitwise _ | arithmetic _ =>
      dsimp only
      split
      · exact logsRejection_binaryAt _ _ _ _
      · exact logsRejection_unimplementedBinary _ _ _

theorem logsRejection_unary (op : UnaryOp) (o : Operand) :
    (unary op o).LogsRejection op.name := by
  cases op with
  | not =>
    simp only [unary]
    split
    · exact (logsRejection_ofViolation _).bind fun b => logsRejection_done _
    · exact logsRejection_done _
    · exact logsRejection_unimplementedUnary _ _
  | neg =>
    simp only [unary]
    split_ifs
    · exact logsRejection_done _
    · split
      · exact logsRejection_done _
      · exact logsRejection_done _
      · exact logsRejection_unimplementedUnary _ _

end Evaluate

namespace Command

/-- The records of a command, by what it starts from. -/
inductive Logged {α : Type} (operator : String) :
    Except InputError (String × Evaluation α) → List Record → Prop
  /-- An operand was not read, or has no text. -/
  | withheld {e : InputError} : Logged operator (.error e) []
  | evaluated {text : String} {x : Evaluation α} {a : α} (ha : x.outcome = .ok a) :
      Logged operator (.ok (text, x)) [⟨.command, text⟩]
  | violated {text : String} {x : Evaluation α} {v : Violation}
      (hv : x.outcome = .error (.violation v)) : Logged operator (.ok (text, x)) [⟨.command, text⟩]
  /-- The evaluator says what it rejects, and the command that its evaluation failed. -/
  | rejected {text rejection : String} {x : Evaluation α} {e : EvalError}
      (he : x.outcome = .error (.evaluation e)) (hname : Mentions rejection operator) :
      Logged operator (.ok (text, x)) [⟨.command, text⟩, ⟨.evaluator, rejection⟩,
        ⟨.command, "evaluation failed: " ++ e.className⟩]

/-- A command whose result is printed, if there is one, records its line, what the evaluator
rejects, and that the evaluation failed. -/
theorem logged_proceed {α : Type} {operator : String} {line : α → Except InputError String}
    {start : Except InputError (String × Evaluation α)}
    (h : ∀ text x, start = .ok (text, x) → Settled line x ∧ x.LogsRejection operator) :
    Logged operator start
      ((proceed line start).records ++ closingRecords (proceed line start).outcome) := by
  cases start with
  | error e => exact .withheld
  | ok p =>
    obtain ⟨text, records, outcome⟩ := p
    obtain ⟨⟨hcause, hline⟩, hrecords⟩ := h text ⟨records, outcome⟩ rfl
    cases outcome with
    | ok a =>
      obtain rfl : records = [] := hrecords
      obtain ⟨t, ht⟩ := hline a rfl
      have hproceed : proceed line (.ok (text, ⟨[], .ok a⟩)) =
          ⟨[⟨.command, text⟩], .ok (t ++ "\n")⟩ := by
        change (Evaluation.note .command text >>= fun _ =>
          Evaluation.ofInput (line a) >>= fun printed => pure (printed ++ "\n")) = _
        rw [ht]
        rfl
      rw [hproceed]
      exact .evaluated rfl
    | error f =>
      obtain ⟨hinput, habsent⟩ := hcause f.cause rfl
      cases f with
      | evaluation e =>
        obtain ⟨rejection, hname, rfl⟩ := hrecords
        exact .rejected rfl hname
      | violation v =>
        obtain rfl : records = [] := hrecords
        exact .violated rfl
      | input e => exact absurd rfl hinput
      | absent a => exact absurd rfl habsent

/-- What is recorded of a command that applies an operator. A command that applies none, or has no
text for its operand, has no records. -/
def Recorded (records : List Record) : Command → Prop
  | .binary op kind left right rightKind =>
    Logged op.name (binaryStart op kind (rightKind.getD kind) left right) records
  | .unary op kind operand => Logged op.name (unaryStart op kind operand) records
  | .kinds | .incomplete .. => records = []

theorem recorded_binary (op : BinaryOp) (kind : Kind) (left right : String) (rk : Option Kind) :
    Recorded (records (.binary op kind left right rk)) (.binary op kind left right rk) := by
  unfold Recorded records
  rw [evaluate_binary]
  refine logged_proceed fun text x h => ⟨settled_of_binaryStart h, ?_⟩
  obtain ⟨v, w, -, -, hv, hw, rfl⟩ := exists_of_binaryStart h
  exact Evaluate.logsRejection_binary op hv hw

theorem recorded_unary (op : UnaryOp) (kind : Kind) (operand : String) :
    Recorded (records (.unary op kind operand)) (.unary op kind operand) := by
  unfold Recorded records
  rw [evaluate_unary]
  refine logged_proceed fun text x h => ⟨settled_of_unaryStart h, ?_⟩
  obtain ⟨v, -, -, rfl⟩ := exists_of_unaryStart h
  exact Evaluate.logsRejection_unary op _

theorem records_incomplete (before : Option (String × Kind)) (absence : Absence) :
    records (.incomplete before absence) = [] := by
  cases before with
  | none => rfl
  | some o =>
    simp only [records, evaluate]
    cases Operand.read o.1 o.2 <;> rfl

theorem recorded (c : Command) : Recorded (records c) c := by
  cases c with
  | binary op kind left right rk => exact recorded_binary op kind left right rk
  | unary op kind operand => exact recorded_unary op kind operand
  | kinds => rfl
  | incomplete before absence => exact records_incomplete before absence

/-- The log of a command. A command that starts has its own line first. A rejection is recorded
once by the evaluator and once more by the command, and neither a result nor a violation is
recorded at all. A command starts where each operand is read and has a text. -/
theorem log_recorded :
    (∀ (environment : Option String) (arguments : List String) (s : Settings) (c : Command)
        (path : String) (level : Level), request arguments = .run s c → s.logFile = some path →
      s.level environment = .ok level →
      ∃ rs, (report environment arguments).log = some (path, rs) ∧ Recorded rs c) ∧
    (∀ (op : BinaryOp) (kind rightKind : Kind) (left right : String),
      (∃ p, binaryStart op kind rightKind left right = .ok p) ↔
        Operand.Rendered left kind ∧ Operand.Rendered right rightKind) ∧
    ∀ (op : UnaryOp) (kind : Kind) (operand : String),
      (∃ p, unaryStart op kind operand = .ok p) ↔ Operand.Rendered operand kind := by
  refine ⟨fun environment arguments s c path level h hfile hlevel => ⟨records c, ?_, recorded c⟩,
    fun op _ _ _ _ => exists_binaryStart_iff op, fun op _ _ => exists_unaryStart_iff op⟩
  rw [report_eq_perform h, perform_eq_of_level hlevel, hfile]
  rfl

/-- A division by zero has three records, and a complement whose operand is left out has none. -/
theorem log_recorded_division :
    (∃ rs, (report none ["--log-file=eval.log", "bin", "div", "u8", "5", "0"]).log =
        some ("eval.log", rs) ∧
      Recorded rs (.binary (.arithmetic .div) .u8 "5" "0" none)) ∧
    (∃ rs, (report (some "info") ["--log-file=eval.log", "un", "not", "u8", "--", "--"]).log =
        some ("eval.log", rs) ∧
      Recorded rs (.incomplete none (.operand .u8))) ∧
    (report none ["--log-file=eval.log", "bin", "div", "u8", "5", "0"]).log =
      some ("eval.log", [⟨.command, "bin DIV 5u8 0u8"⟩, ⟨.evaluator, "DIV by zero at u8"⟩,
        ⟨.command, "evaluation failed: DivisionByZero"⟩]) := by
  refine ⟨?_, ?_, by decide +kernel⟩
  · exact log_recorded.1 none _ ⟨false, false, some "eval.log"⟩ _ _ .warning (by decide +kernel)
      rfl rfl
  · exact log_recorded.1 (some "info") _ ⟨false, false, some "eval.log"⟩ _ _ .info
      (by decide +kernel) rfl (by decide +kernel)

end Command
end ScalarEval
