import Mathlib
import ScalarEval.Proofs.Start

/-! Command lines that are refused. A command is refused for an operand that denotes nothing, and
for an allocation too long for a text, although the operand was read. -/
namespace ScalarEval

open Text

namespace Command

/-- The operands that a command reads. -/
def operands : Command → List (String × Kind)
  | .binary _ kind left right rightKind => [(left, kind), (right, rightKind.getD kind)]
  | .unary _ kind operand => [(operand, kind)]
  | .kinds => []
  | .incomplete before _ => before.toList

/-- The operands that a command puts into its line of the log. -/
def describedOperands : Command → List (String × Kind)
  | .incomplete .. => []
  | c => c.operands

/-- The status with which the program exits, if it is not ended by a failure of its own. -/
def Ending.status? : Ending → Option ℕ
  | .usage status | .exit status _ _ => some status
  | .misuse | .refused _ => some 2
  | .violated _ | .notALevel _ | .absent _ => none

theorem status?_ending_eq_two_iff {x : Except Failure String} :
    (ending x).status? = some 2 ↔ ∃ e, x = .error (.input e) := by
  rcases x with f | t
  · cases f <;> simp [ending, Ending.status?]
  · simp [ending, Ending.status?]

/-- A command fails for want of an input if an operand was not read, or has no text to be
recorded. -/
theorem exists_outcome_evaluate_iff (c : Command) :
    (∃ e, c.evaluate.outcome = .error (.input e)) ↔
      (∃ o ∈ c.operands, Operand.Unread o.1 o.2) ∨
        ∃ o ∈ c.describedOperands, Operand.Textless o.1 o.2 := by
  cases c with
  | binary op kind left right rk =>
    rw [evaluate_binary, exists_outcome_proceed_iff fun _ _ => settled_of_binaryStart,
      exists_binaryStart_iff, not_and_or, Operand.not_rendered_iff, Operand.not_rendered_iff]
    simp [operands, describedOperands, or_or_or_comm]
  | unary op kind operand =>
    rw [evaluate_unary, exists_outcome_proceed_iff fun _ _ => settled_of_unaryStart,
      exists_unaryStart_iff, Operand.not_rendered_iff]
    simp [operands, describedOperands]
  | kinds =>
    refine iff_of_false ?_ (by simp [operands, describedOperands])
    rintro ⟨e, he⟩
    cases he
  | incomplete before absence =>
    cases before with
    | none => simp [operands, describedOperands, evaluate, Evaluation.fail]
    | some o =>
      obtain ⟨text, kind⟩ := o
      simp only [evaluate, Evaluation.outcome_bind, Evaluation.outcome_ofInput]
      cases hread : Operand.read text kind <;>
        simp [operands, describedOperands, Operand.Unread, hread, Except.mapError, Except.bind,
          Evaluation.fail]

/-- A command that was accepted exits with status 2 where it finds no input in an operand, or no
text for it, unless its console has no level. -/
theorem status?_report_eq_two_iff {arguments : List String} {s : Settings} {c : Command}
    (h : request arguments = .run s c) (environment : Option String) :
    (report environment arguments).ending.status? = some 2 ↔
      (∃ level, s.level environment = .ok level) ∧
        ((∃ o ∈ c.operands, Operand.Unread o.1 o.2) ∨
          ∃ o ∈ c.describedOperands, Operand.Textless o.1 o.2) := by
  rw [report_eq_perform h]
  cases hlevel : s.level environment with
  | error n =>
    rw [perform_eq_of_error hlevel]
    simp [Ending.status?]
  | ok level =>
    rw [perform_eq_of_level hlevel, status?_ending_eq_two_iff, exists_outcome_evaluate_iff]
    simp

/-- The least allocation without a text, as a pointer to its first byte. -/
def longPointer : String :=
  hex (10 ^ decimalLimit) ++ ":0"

theorem read_longPointer :
    Operand.read longPointer .ptr = .ok ⟨0, some (.number (10 ^ decimalLimit))⟩ := by
  have hcolon := Operand.notMem_hex Operand.isSeparator_colon (by decide) (10 ^ decimalLimit)
  have hzero : Numeral.read ['0'] = .ok 0 := by decide +kernel
  have htext : longPointer =
      String.ofList ((hex (10 ^ decimalLimit)).toList ++ ':' :: ['0']) := by
    rw [String.ofList_append, String.ofList_toList]
    rfl
  rw [htext, Operand.read_ptr, Operand.readInteger_colon hcolon .ptr (Numeral.read_hex _) hzero]
  rfl

theorem undashed_longPointer : Undashed longPointer := by
  have hnonneg : ¬ (10 : ℤ) ^ decimalLimit < 0 := not_lt.mpr (by positivity)
  unfold Undashed longPointer hex withSign
  rw [if_neg hnonneg, String.toList_append, String.toList_ofList]
  simp

theorem not_hasText_longPointer : ¬ (Value.mk 0 (some (.number (10 ^ decimalLimit)))).HasText := by
  intro h
  have hlt := AllocId.hasText_number_iff.mp (h _ rfl)
  have hten : (10 : ℤ).natAbs = 10 := rfl
  rw [Int.natAbs_pow, hten] at hlt
  exact lt_irrefl _ hlt

/-- Texts that are missing. An operand that was read has a text, allocations beyond the limit
excepted, and those are written in hexadecimal. Where such an operand is reported, the input is
blamed for it, and a command on it exits as one does on an operand that was not read. -/
theorem missing_texts_iff {text : String} {o : Operand}
    (h : Operand.read text o.kind = .ok o.value) :
    ((∃ t, o.describe = .ok t) ↔ o.value.HasText) ∧
      (¬ o.value.HasText →
        ':' ∈ text.toList ∧ Numeral.IsHexadecimal (Operand.writtenAllocation text)) ∧
      (∀ (op : BinaryOp) (r : Operand), (Evaluate.binary op o r).ending = .error .input ↔
        Evaluate.ReportsOperands op o r ∧ ¬ (o.value.HasText ∧ r.value.HasText)) ∧
      (∀ op : UnaryOp, (Evaluate.unary op o).ending = .error .input ↔
        Evaluate.ReportsOperand op o ∧ ¬ o.value.HasText) ∧
      ∀ (environment : Option String) (arguments : List String) (s : Settings) (c : Command),
        request arguments = .run s c →
        ((report environment arguments).ending.status? = some 2 ↔
          (∃ level, s.level environment = .ok level) ∧
            ((∃ p ∈ c.operands, Operand.Unread p.1 p.2) ∨
              ∃ p ∈ c.describedOperands, Operand.Textless p.1 p.2)) := by
  exact ⟨Operand.exists_describe_iff, Operand.isHexadecimal_of_not_hasText h,
    fun _ _ => Evaluate.ending_binary_eq_input_iff, fun _ => Evaluate.ending_unary_eq_input_iff,
    fun environment _ _ _ hrun => status?_report_eq_two_iff hrun environment⟩

/-- A text that is no number is refused at `u8`. The negation of a pointer is not implemented, and
that is reported where its allocation has a text. The least allocation without one is written in
hexadecimal. -/
theorem missing_texts_iff_negation :
    Operand.read longPointer .ptr = .ok ⟨0, some (.number (10 ^ decimalLimit))⟩ ∧
      Numeral.IsHexadecimal (Operand.writtenAllocation longPointer) ∧
      (Evaluate.unary .neg ⟨⟨0, some (.number (10 ^ decimalLimit))⟩, .ptr⟩).ending =
        .error .input ∧
      Operand.read "7:0" .ptr = .ok ⟨0, some (.number 7)⟩ ∧
      (Evaluate.unary .neg ⟨⟨0, some (.number 7)⟩, .ptr⟩).ending ≠ .error .input ∧
      request ["un", "neg", "u8", "five"] = .run .initial (.unary .neg .u8 "five") ∧
      (report none ["un", "neg", "u8", "five"]).ending.status? = some 2 := by
  have hread : Operand.read "7:0" .ptr = .ok ⟨0, some (.number 7)⟩ := by decide +kernel
  have htext : (Value.mk 0 (some (.number 7))).HasText := by decide
  have hrun : request ["un", "neg", "u8", "five"] = .run .initial (.unary .neg .u8 "five") := by
    decide +kernel
  have hunread : Operand.Unread "five" .u8 := ⟨.invalidInteger 10 "five", by decide +kernel⟩
  obtain ⟨-, hwritten, -, hlong, -⟩ := missing_texts_iff
    (o := ⟨⟨0, some (.number (10 ^ decimalLimit))⟩, .ptr⟩) read_longPointer
  obtain ⟨-, -, -, hshort, hstatus⟩ := missing_texts_iff (o := ⟨⟨0, some (.number 7)⟩, .ptr⟩) hread
  refine ⟨read_longPointer, (hwritten not_hasText_longPointer).2,
    (hlong .neg).mpr ⟨⟨rfl, rfl⟩, not_hasText_longPointer⟩, hread, ?_, hrun,
    (hstatus none _ _ _ hrun).mpr ⟨⟨.warning, rfl⟩, .inl ?_⟩⟩
  · rw [ne_eq, hshort]
    exact fun h => h.2 htext
  · exact ⟨("five", .u8), List.mem_singleton_self _, hunread⟩

/-- Equality with a pointer into another allocation needs no text, and is refused for one. -/
theorem refused_longPointer :
    Operand.read longPointer .ptr = .ok ⟨0, some (.number (10 ^ decimalLimit))⟩ ∧
      Operand.read "1:0" .ptr = .ok ⟨0, some (.number 1)⟩ ∧
      (¬ ∃ t, Operand.describe ⟨⟨0, some (.number (10 ^ decimalLimit))⟩, .ptr⟩ = .ok t) ∧
      (report none ["bin", "eq", "ptr", longPointer, "1:0"]).ending.status? = some 2 := by
  have hrun : request ["bin", "eq", "ptr", longPointer, "1:0"] =
      .run .initial (.binary (.comparison .eq) .ptr longPointer "1:0" none) :=
    request_binary (.comparison .eq) .ptr undashed_longPointer (by decide) none
  refine ⟨read_longPointer, by decide +kernel,
    fun h => not_hasText_longPointer (Operand.exists_describe_iff.mp h),
    (status?_report_eq_two_iff hrun none).mpr ⟨⟨.warning, rfl⟩, .inr ?_⟩⟩
  exact ⟨(longPointer, .ptr), List.mem_cons_self, _, read_longPointer, not_hasText_longPointer⟩

end Command
end ScalarEval
