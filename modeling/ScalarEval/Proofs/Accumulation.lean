import Mathlib
import ScalarEval.Command.Report
import ScalarEval.Evaluate.Run
import ScalarEval.Proofs.Ending

/-! What a run accumulates, and at which kind it is passed on. -/
namespace ScalarEval

namespace Step

/-- The kind at which a step takes the accumulated value. -/
def kind : Step → Kind
  | binary _ k _ _ | unary _ k => k

/-- The kind of the result. A swapped step has its argument on the left. -/
def resultKind : Step → Kind
  | binary op k argument swapped =>
    Command.resultKind op (if swapped then argument.kind else k)
  | unary _ k => k

/-- The value that a step leaves, which is the old one where the step fails. -/
def next (s : Step) (v : Value) : Value :=
  match s.outcome v with
  | .ok r => r.value
  | .error _ => v

theorem next_of_ok {s : Step} {v : Value} {r : StepResult} (h : s.outcome v = .ok r) :
    s.next v = r.value := by
  unfold next
  rw [h]

theorem outcome_binary_eq_ok {op : BinaryOp} {k : Kind} {a : Operand} {swapped : Bool}
    {v : Value} {x : StepResult} (h : (binary op k a swapped).outcome v = .ok x) :
    ∃ r, x = .binary r ∧
      (if swapped then Evaluate.binary op a ⟨v, k⟩ else Evaluate.binary op ⟨v, k⟩ a).outcome =
        .ok r :=
  exists_of_map_eq_ok h

theorem outcome_unary_eq_ok {op : UnaryOp} {k : Kind} {v : Value} {x : StepResult}
    (h : (unary op k).outcome v = .ok x) :
    ∃ u, x = .unary u ∧ (Evaluate.unary op ⟨v, k⟩).outcome = .ok u :=
  exists_of_map_eq_ok h

end Step

/-- The accumulated value at the end of a run. -/
def accumulated (v : Value) (steps : List Step) : Value :=
  steps.foldl (fun u s => s.next u) v

theorem run_cons (v : Value) (s : Step) (steps : List Step) :
    run v (s :: steps) = s.outcome v :: run (s.next v) steps := rfl

theorem accumulated_cons (v : Value) (s : Step) (steps : List Step) :
    accumulated v (s :: steps) = accumulated (s.next v) steps := rfl

end ScalarEval
