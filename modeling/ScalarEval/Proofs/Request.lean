import Mathlib
import ScalarEval.Command.Request

/-! Command lines that ask for an operator. Every operator can be asked for at every kind, on any
operands that do not start with a dash. -/
namespace ScalarEval

theorem BinaryOp.ofLabel?_label (op : BinaryOp) : ofLabel? op.label = some op := by
  cases op with
  | arithmetic a => cases a <;> decide
  | bitwise b => cases b <;> decide
  | shift s => cases s <;> decide
  | comparison c => cases c <;> decide

theorem UnaryOp.ofLabel?_label (op : UnaryOp) : ofLabel? op.label = some op := by
  cases op <;> decide

-- Labels are put in lower case first, which only the kernel evaluates.
theorem Kind.ofLabel?_label (k : Kind) : ofLabel? k.label = some k := by
  cases k <;> decide +kernel

namespace Command

theorem isKindLabel_label (k : Kind) : isKindLabel k.label = true := by
  cases k <;> decide

/-- Whether a text cannot be taken for an option. -/
def Undashed (text : String) : Prop :=
  text.toList.head? ≠ some '-'

instance (text : String) : Decidable (Undashed text) :=
  inferInstanceAs (Decidable (text.toList.head? ≠ some '-'))

theorem undashed_binaryLabel (op : BinaryOp) : Undashed op.label := by
  cases op with
  | arithmetic a => cases a <;> decide
  | bitwise b => cases b <;> decide
  | shift s => cases s <;> decide
  | comparison c => cases c <;> decide

theorem undashed_kindLabel (k : Kind) : Undashed k.label := by
  cases k <;> decide

namespace Undashed
variable {text : String}

theorem ne_separator (h : Undashed text) : text ≠ separator := by
  rintro rfl
  exact absurd h (by decide)

theorem classify_eq {α : Type} (h : Undashed text) (s : Spellings α) :
    classify s text = .positional := by
  unfold classify
  dsimp only
  split
  next hcs => simp [Undashed, hcs] at h
  next => rfl

end Undashed

/-- The options that set a right kind, or leave it to the left one. -/
def rightKindArguments : Option Kind → List String
  | none => []
  | some k => ["--right-kind", k.label]

theorem readTail_cons {s : Spellings LocalOption} {p p' : Progress} {a : String}
    (h : Undashed a) (hp : p.accept? (some a) = some p') (rest : List String) :
    readTail s p (a :: rest) = readTail s p' rest := by
  conv_lhs => unfold readTail
  simp only [if_neg h.ne_separator, h.classify_eq, hp]

/-- A test accepts a text as its positional argument. -/
def Accepts (test : String → Bool) (text : String) : Prop :=
  Undashed text ∧ test text = true

/-- One positional argument after another is accepted. -/
theorem readTail_positionals (s : Spellings LocalOption) {tests : List (String → Bool)}
    {texts : List String} (h : List.Forall₂ Accepts tests texts) (found : List (Option String))
    (rk : Option Kind) (tidy adjacent : Bool) (rest : List String) :
    ∃ adjacent', readTail s ⟨tests, found, rk, tidy, adjacent⟩ (texts ++ rest) =
      readTail s ⟨[], found ++ texts.map some, rk, tidy, adjacent'⟩ rest := by
  induction h generalizing found adjacent with
  | nil => exact ⟨adjacent, by simp⟩
  | @cons test t tests texts ht _ ih =>
    obtain ⟨adjacent', hrest⟩ := ih (found ++ [some t]) true
    refine ⟨adjacent', ?_⟩
    have hp : Progress.accept? ⟨test :: tests, found, rk, tidy, adjacent⟩ (some t) =
        some ⟨tests, found ++ [some t], rk, tidy, true⟩ := by
      simp [Progress.accept?, ht.2]
    rw [List.cons_append, readTail_cons ht.1 hp, hrest]
    simp

theorem readTail_rightKind (found : List (Option String)) (rk : Option Kind)
    (tidy adjacent : Bool) :
    readTail binaryForm.spellings ⟨[], found, none, tidy, adjacent⟩ (rightKindArguments rk) =
      .complete found rk tidy := by
  cases rk with
  | none => rfl
  | some k =>
    have hoption : classify binaryForm.spellings "--right-kind" = .option .rightKind := by
      decide +kernel
    rw [rightKindArguments, readTail, if_neg (by decide), hoption]
    simp [(undashed_kindLabel k).classify_eq, Progress.withRightKind?, isKindLabel_label,
      Kind.ofLabel?_label, readTail, Progress.finish]

theorem hasAmbiguous_eq_false {arguments : List String}
    (h : ∀ a ∈ arguments, classify globalSpellings a ≠ .ambiguous) :
    hasAmbiguous arguments = false := by
  unfold hasAmbiguous
  rw [List.any_eq_false]
  intro a ha
  simpa using h a ((List.takeWhile_prefix _).mem ha)

/-- The name of a command is followed by the arguments of its form. -/
theorem request_cons {name : String} {arguments : List String} {f : Form} {c : Command}
    {found : List (Option String)} {rk : Option Kind} (hname : Undashed name)
    (hclear : hasAmbiguous (name :: arguments) = false) (hform : form? name = some f)
    (htail : readTail f.spellings ⟨f.positionals, [], none, true, false⟩ arguments =
      .complete found rk true)
    (hcommand : f.command? found rk = some c) :
    request (name :: arguments) = .run .initial c := by
  unfold request readGlobals readCommand
  simp [hclear, hname.ne_separator, hname.classify_eq, hform, htail, hcommand]

theorem classify_rightKindArguments (rk : Option Kind) :
    ∀ a ∈ rightKindArguments rk, classify globalSpellings a ≠ .ambiguous := by
  cases rk with
  | none => simp [rightKindArguments]
  | some k =>
    have hoption : classify globalSpellings "--right-kind" = .unknown := by decide +kernel
    simp [rightKindArguments, hoption, (undashed_kindLabel k).classify_eq]

section
variable {left right operand : String}

theorem request_binary (op : BinaryOp) (kind : Kind) (hl : Undashed left) (hr : Undashed right)
    (rk : Option Kind) :
    request (["bin", op.label, kind.label, left, right] ++ rightKindArguments rk) =
      .run .initial (.binary op kind left right rk) := by
  have hop := undashed_binaryLabel op
  have hkind := undashed_kindLabel kind
  have hbin : Undashed "bin" := by decide
  have hclear : hasAmbiguous
      (["bin", op.label, kind.label, left, right] ++ rightKindArguments rk) = false := by
    apply hasAmbiguous_eq_false
    simpa [hbin.classify_eq, hop.classify_eq, hkind.classify_eq, hl.classify_eq, hr.classify_eq]
      using classify_rightKindArguments rk
  have hall : List.Forall₂ Accepts binaryForm.positionals [op.label, kind.label, left, right] := by
    simp [binaryForm, Accepts, hop, hkind, hl, hr, BinaryOp.ofLabel?_label, isKindLabel_label]
  obtain ⟨adjacent, htail⟩ := readTail_positionals binaryForm.spellings hall [] none true false
    (rightKindArguments rk)
  rw [readTail_rightKind] at htail
  refine request_cons hbin hclear rfl htail ?_
  simp [binaryForm, BinaryOp.ofLabel?_label, Kind.ofLabel?_label, binaryCommand]

end

end Command
end ScalarEval
