import ScalarEval.Failure

/-! Evaluations: what was recorded on the way, and the result or the failure at the end. -/
namespace ScalarEval

/-- Records come from the evaluator of operators or from the command line. -/
inductive Source where
  | evaluator | command
  deriving DecidableEq, Repr

structure Record where
  source : Source
  text : String
  deriving DecidableEq, Repr

structure Evaluation (α : Type) where
  records : List Record
  outcome : Except Failure α

namespace Evaluation

def done (a : α) : Evaluation α :=
  ⟨[], .ok a⟩

def fail (f : Failure) : Evaluation α :=
  ⟨[], .error f⟩

/-- A failure ends an evaluation; the records made before it stay. -/
def andThen (x : Evaluation α) (f : α → Evaluation β) : Evaluation β :=
  match x.outcome with
  | .ok a => ⟨x.records ++ (f a).records, (f a).outcome⟩
  | .error e => ⟨x.records, .error e⟩

instance : Monad Evaluation where
  pure := done
  bind := andThen

def ofInput : Except InputError α → Evaluation α
  | .ok a => done a
  | .error e => fail (.input e)

def ofViolation : Except Violation α → Evaluation α
  | .ok a => done a
  | .error v => fail (.violation v)

def note (source : Source) (text : String) : Evaluation Unit :=
  ⟨[⟨source, text⟩], .ok ()⟩

/-- Records a rejection and fails. A record without text is not made. -/
def reject (record : Except InputError String) (e : EvalError) : Evaluation α :=
  ⟨match record with
    | .ok text => [⟨.evaluator, text⟩]
    | .error _ => [],
   .error (.evaluation e)⟩

end Evaluation
end ScalarEval
