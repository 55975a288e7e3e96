import Mathlib
import ScalarEval.Proofs.Rendering

/-! Starts of commands. A command starts by reading its operands and putting them into text for its
line in the log. From there on it records the line, evaluates its operator and prints the result,
and no text is lacking any more. -/
namespace ScalarEval

namespace Evaluation
variable {α β γ : Type}

theorem ofInput_bind (x : Except InputError α) (f : α → Except InputError β)
    (g : β → Evaluation γ) :
    ofInput (x >>= f) >>= g = ofInput x >>= fun a => ofInput (f a) >>= g := by
  cases x <;> rfl

theorem ofInput_pure_bind (a : α) (f : α → Evaluation β) : ofInput (pure a) >>= f = f a := rfl

end Evaluation

namespace Operand

/-- A text that is read as a value with a text in turn. -/
def Rendered (text : String) (k : Kind) : Prop :=
  ∃ v, read text k = .ok v ∧ v.HasText

/-- A text that denotes nothing at a kind. -/
def Unread (text : String) (k : Kind) : Prop :=
  ∃ e, read text k = .error e

/-- A text that is read as a value without a text. -/
def Textless (text : String) (k : Kind) : Prop :=
  ∃ v, read text k = .ok v ∧ ¬ v.HasText

theorem not_rendered_iff {text : String} {k : Kind} :
    ¬ Rendered text k ↔ Unread text k ∨ Textless text k := by
  unfold Rendered Unread Textless
  cases read text k <;> simp

end Operand

namespace Command

/-- What a binary command starts from: its line in the log, and the evaluation of its operator. -/
def binaryStart (op : BinaryOp) (kind rightKind : Kind) (left right : String) :
    Except InputError (String × Evaluation Result) := do
  let l ← Operand.read left kind
  let r ← Operand.read right rightKind
  let leftText ← Operand.describe ⟨l, kind⟩
  let rightText ← Operand.describe ⟨r, rightKind⟩
  return ("bin " ++ op.name ++ " " ++ leftText ++ " " ++ rightText,
    Evaluate.binary op ⟨l, kind⟩ ⟨r, rightKind⟩)

def unaryStart (op : UnaryOp) (kind : Kind) (operand : String) :
    Except InputError (String × Evaluation Value) := do
  let v ← Operand.read operand kind
  let text ← Operand.describe ⟨v, kind⟩
  return ("un " ++ op.name ++ " " ++ text, Evaluate.unary op ⟨v, kind⟩)

/-- A command from its start on: its line is recorded, its evaluation made, and the result
printed. -/
def proceed {α : Type} (line : α → Except InputError String)
    (start : Except InputError (String × Evaluation α)) : Evaluation String := do
  let (text, x) ← .ofInput start
  .note .command text
  let a ← x
  let printed ← .ofInput (line a)
  return printed ++ "\n"

section
variable {left right operand text : String} {kind rightKind : Kind}

theorem evaluate_binary (op : BinaryOp) (kind : Kind) (left right : String) (rk : Option Kind) :
    evaluate (.binary op kind left right rk) =
      proceed (binaryLine op kind) (binaryStart op kind (rk.getD kind) left right) := by
  simp only [evaluate, proceed, binaryStart, binaryLine, Evaluation.ofInput_bind,
    Evaluation.ofInput_pure_bind]

theorem evaluate_unary (op : UnaryOp) (kind : Kind) (operand : String) :
    evaluate (.unary op kind operand) =
      proceed (unaryLine kind) (unaryStart op kind operand) := by
  simp only [evaluate, proceed, unaryStart, unaryLine, Evaluation.ofInput_bind,
    Evaluation.ofInput_pure_bind]

/-- The operands of a command that starts are read and have texts. -/
theorem exists_of_binaryStart {op : BinaryOp} {x : Evaluation Result}
    (h : binaryStart op kind rightKind left right = .ok (text, x)) :
    ∃ v w, Operand.read left kind = .ok v ∧ Operand.read right rightKind = .ok w ∧
      v.HasText ∧ w.HasText ∧ x = Evaluate.binary op ⟨v, kind⟩ ⟨w, rightKind⟩ := by
  obtain ⟨v, hv, h⟩ := exists_of_bind_eq_ok h
  obtain ⟨w, hw, h⟩ := exists_of_bind_eq_ok h
  obtain ⟨s, hs, h⟩ := exists_of_bind_eq_ok h
  obtain ⟨t, ht, h⟩ := exists_of_bind_eq_ok h
  have hx := congrArg Prod.snd (Except.ok.inj h)
  exact ⟨v, w, hv, hw, Operand.exists_describe_iff.mp ⟨s, hs⟩,
    Operand.exists_describe_iff.mp ⟨t, ht⟩, hx.symm⟩

theorem exists_of_unaryStart {op : UnaryOp} {x : Evaluation Value}
    (h : unaryStart op kind operand = .ok (text, x)) :
    ∃ v, Operand.read operand kind = .ok v ∧ v.HasText ∧ x = Evaluate.unary op ⟨v, kind⟩ := by
  obtain ⟨v, hv, h⟩ := exists_of_bind_eq_ok h
  obtain ⟨s, hs, h⟩ := exists_of_bind_eq_ok h
  have hx := congrArg Prod.snd (Except.ok.inj h)
  exact ⟨v, hv, Operand.exists_describe_iff.mp ⟨s, hs⟩, hx.symm⟩

theorem exists_binaryStart_iff (op : BinaryOp) :
    (∃ p, binaryStart op kind rightKind left right = .ok p) ↔
      Operand.Rendered left kind ∧ Operand.Rendered right rightKind := by
  constructor
  · rintro ⟨⟨text, x⟩, h⟩
    obtain ⟨v, w, hv, hw, hvt, hwt, -⟩ := exists_of_binaryStart h
    exact ⟨⟨v, hv, hvt⟩, w, hw, hwt⟩
  · rintro ⟨⟨v, hv, hvt⟩, w, hw, hwt⟩
    obtain ⟨s, hs⟩ := Operand.describe_eq_ok (o := ⟨v, kind⟩) hvt
    obtain ⟨t, ht⟩ := Operand.describe_eq_ok (o := ⟨w, rightKind⟩) hwt
    unfold binaryStart
    rw [hv, hw]
    change ∃ p, (Operand.describe ⟨v, kind⟩ >>= fun s => Operand.describe ⟨w, rightKind⟩ >>= fun t =>
      pure ("bin " ++ op.name ++ " " ++ s ++ " " ++ t, Evaluate.binary op ⟨v, kind⟩ ⟨w, rightKind⟩))
        = .ok p
    rw [hs, ht]
    exact ⟨_, rfl⟩

theorem exists_unaryStart_iff (op : UnaryOp) :
    (∃ p, unaryStart op kind operand = .ok p) ↔ Operand.Rendered operand kind := by
  constructor
  · rintro ⟨⟨text, x⟩, h⟩
    obtain ⟨v, hv, hvt, -⟩ := exists_of_unaryStart h
    exact ⟨v, hv, hvt⟩
  · rintro ⟨v, hv, hvt⟩
    obtain ⟨s, hs⟩ := Operand.describe_eq_ok (o := ⟨v, kind⟩) hvt
    unfold unaryStart
    rw [hv]
    change ∃ p, (Operand.describe ⟨v, kind⟩ >>= fun s =>
      pure ("un " ++ op.name ++ " " ++ s, Evaluate.unary op ⟨v, kind⟩)) = .ok p
    rw [hs]
    exact ⟨_, rfl⟩

end

/-- An evaluation that is rejected or violated, if it fails, and whose result is printed. -/
structure Settled {α : Type} (line : α → Except InputError String) (x : Evaluation α) : Prop where
  cause : ∀ c, x.ending = .error c → c ≠ .input ∧ c ≠ .absent
  line : ∀ a, x.outcome = .ok a → ∃ t, line a = .ok t

section
variable {left right operand text : String} {kind rightKind : Kind}

theorem settled_of_binaryStart {op : BinaryOp} {x : Evaluation Result}
    (h : binaryStart op kind rightKind left right = .ok (text, x)) :
    Settled (binaryLine op kind) x := by
  obtain ⟨v, w, -, -, hv, hw, rfl⟩ := exists_of_binaryStart h
  refine ⟨fun c hc => ?_, fun a ha => ?_⟩
  · exact Evaluate.cause_of_binary (l := ⟨v, kind⟩) (r := ⟨w, rightKind⟩) hv hw hc
  · obtain ⟨t, ht, -⟩ := binaryLine_eq_ok op kind (Evaluate.alloc_of_binary ha)
    exact ⟨t, ht⟩

theorem settled_of_unaryStart {op : UnaryOp} {x : Evaluation Value}
    (h : unaryStart op kind operand = .ok (text, x)) : Settled (unaryLine kind) x := by
  obtain ⟨v, -, hv, rfl⟩ := exists_of_unaryStart h
  refine ⟨fun c hc => Evaluate.cause_of_unary (o := ⟨v, kind⟩) hv hc, fun a ha => ?_⟩
  obtain ⟨t, ht, -⟩ := unaryLine_eq_ok kind (Evaluate.unary_canonical ha).2
  exact ⟨t, ht⟩

end

section
variable {α : Type} {line : α → Except InputError String}
  {start : Except InputError (String × Evaluation α)}

theorem outcome_proceed (line : α → Except InputError String)
    (start : Except InputError (String × Evaluation α)) :
    (proceed line start).outcome = printedOutcome line (start.map Prod.snd) := by
  cases start with
  | error e => rfl
  | ok p =>
    have hprint : ∀ a, ((line a).mapError Failure.input).bind (fun t => .ok (t ++ "\n")) =
        ((line a).map (· ++ "\n")).mapError .input := by
      intro a
      cases line a <;> rfl
    simp only [proceed, Evaluation.outcome_bind, Evaluation.outcome_ofInput]
    exact congrArg p.2.outcome.bind (funext hprint)

/-- A command that settles what it starts from fails for want of an input only where it does not
start. -/
theorem exists_outcome_proceed_iff (h : ∀ text x, start = .ok (text, x) → Settled line x) :
    (∃ e, (proceed line start).outcome = .error (.input e)) ↔ ¬ ∃ p, start = .ok p := by
  rw [outcome_proceed]
  cases start with
  | error e => exact iff_of_true ⟨e, rfl⟩ (by simp)
  | ok p =>
    obtain ⟨hcause, hline⟩ := h p.1 p.2 rfl
    refine iff_of_false ?_ (by simp)
    rintro ⟨e, he⟩
    -- Past its start a command can lack an input in the evaluation or in the printing of its result.
    change (p.2.outcome.bind fun a => ((line a).map (· ++ "\n")).mapError .input) = _ at he
    cases ho : p.2.outcome with
    | error f =>
      rw [ho] at he
      obtain rfl := Except.error.inj he
      exact (hcause .input (Evaluation.ending_eq_error_iff.mpr ⟨_, ho, rfl⟩)).1 rfl
    | ok a =>
      obtain ⟨t, ht⟩ := hline a ho
      rw [ho, Except.bind, ht] at he
      cases he

end

end Command
end ScalarEval
