import Mathlib
import ScalarEval.Proofs.OperandText

/-! Truth values and the patterns that stand for them. A word that is neither 0 nor 1 is refused
when it is read and when it is complemented, and its text is that of no truth value. Patterns are
tested from above only, so a negative one, which no word is, passes for false. -/
namespace ScalarEval

/-- A pattern is read as the truth value it stands for, and is refused if it stands for none. -/
structure ReadStrictly (n : ℤ) : Prop where
  accepted : n = 0 ∨ n = 1 → readBool n = .ok (decide (n = 1))
  refused : ¬ (n = 0 ∨ n = 1) → readBool n = .error (.invalidBoolean n)

theorem readStrictly_iff {n : ℤ} : ReadStrictly n ↔ 0 ≤ n := by
  constructor
  · intro h
    -- A negative pattern is neither 0 nor 1, but it passes the test.
    by_contra hn
    have hrefused := h.refused (by omega)
    rw [readBool_of_le_one (by omega)] at hrefused
    cases hrefused
  · intro hn
    exact ⟨fun h => readBool_of_le_one (by omega), fun h => readBool_of_one_lt (by omega)⟩

namespace Kind
variable {w : BitVec 64}

theorem exists_ofBool_of_canonical (h : bool.Canonical w) : ∃ b, w = (Value.ofBool b).bits := by
  rcases h.bool rfl with rfl | rfl
  · exact ⟨false, rfl⟩
  · exact ⟨true, rfl⟩

/-- The canonical words at `bool` are those of the patterns that stand for truth values. -/
theorem canonical_bool_iff : bool.Canonical w ↔ (w.toNat : ℤ) = 0 ∨ (w.toNat : ℤ) = 1 := by
  constructor
  · intro h
    rcases h.bool rfl with rfl | rfl <;> decide
  · intro h
    have hword : w = 0 ∨ w = 1 := by
      rw [← BitVec.toNat_inj, ← BitVec.toNat_inj]
      exact_mod_cast h
    rcases hword with rfl | rfl
    · exact canonical_ofBool false
    · exact canonical_ofBool true

end Kind

namespace Value
variable {v : Value} {b : Bool} {e : Violation}

/-- Words are not negative. -/
theorem readStrictly_bits (v : Value) : ReadStrictly v.bits.toNat :=
  readStrictly_iff.mpr (Int.natCast_nonneg _)

theorem toBool_ofBool (b : Bool) : (ofBool b).toBool = .ok b := by
  cases b <;> rfl

theorem toBool_of_bits_eq (h : v.bits = (ofBool b).bits) : v.toBool = .ok b := by
  rw [← toBool_ofBool b, toBool, toBool, h]

theorem toBool_of_not_canonical (h : ¬ Kind.bool.Canonical v.bits) :
    v.toBool = .error (.invalidBoolean v.bits.toNat) :=
  v.readStrictly_bits.refused (h ∘ Kind.canonical_bool_iff.mpr)

theorem toBool_eq_ok_iff : v.toBool = .ok b ↔ v.bits = (ofBool b).bits := by
  refine ⟨fun h => ?_, toBool_of_bits_eq⟩
  by_cases hw : Kind.bool.Canonical v.bits
  · obtain ⟨c, hc⟩ := Kind.exists_ofBool_of_canonical hw
    rw [toBool_of_bits_eq hc] at h
    rw [hc, Except.ok.inj h]
  · rw [toBool_of_not_canonical hw] at h
    cases h

theorem toBool_eq_error_iff : v.toBool = .error e ↔
    ¬ Kind.bool.Canonical v.bits ∧ e = .invalidBoolean v.bits.toNat := by
  by_cases hw : Kind.bool.Canonical v.bits
  · obtain ⟨b, hb⟩ := Kind.exists_ofBool_of_canonical hw
    rw [toBool_of_bits_eq hb]
    simp [hw]
  · rw [toBool_of_not_canonical hw]
    simp [hw, eq_comm]

theorem exists_toBool_iff : (∃ b, v.toBool = .ok b) ↔ Kind.bool.Canonical v.bits := by
  simp only [toBool_eq_ok_iff]
  refine ⟨?_, Kind.exists_ofBool_of_canonical⟩
  rintro ⟨b, hb⟩
  rw [hb]
  exact Kind.canonical_ofBool b

end Value

namespace Operand
variable {w : BitVec 64}

theorem plainText_ofBool (b : Bool) :
    plainText (Value.ofBool b).bits .bool = if b then "true" else "false" := by
  cases b <;> rfl

theorem plainText_of_not_canonical (h : ¬ Kind.bool.Canonical w) :
    plainText w .bool = "bool(" ++ Text.hex w.toNat ++ ")" := by
  have hzero : w ≠ 0 := by
    rintro rfl
    exact h (Kind.canonical_ofBool false)
  have hone : w ≠ 1 := by
    rintro rfl
    exact h (Kind.canonical_ofBool true)
  change (if w = 0 then "false" else if w = 1 then "true" else _) = _
  rw [if_neg hzero, if_neg hone]

/-- The texts differ in their first characters. -/
theorem plainText_ne_of_not_canonical (h : ¬ Kind.bool.Canonical w) :
    plainText w .bool ≠ "true" ∧ plainText w .bool ≠ "false" := by
  rw [plainText_of_not_canonical h]
  constructor <;> intro htext <;>
    simpa using congrArg (fun t => t.toList.head?) htext

end Operand

namespace Evaluate

/-- Complement at `bool` stores the opposite of the truth value that is read. -/
theorem outcome_not_bool (v : Value) :
    (unary .not ⟨v, .bool⟩).outcome =
      (v.toBool.map fun b => Value.ofBool !b).mapError .violation := by
  change (Evaluation.ofViolation v.toBool >>= fun b =>
    (pure (.ofBool !b) : Evaluation Value)).outcome = _
  rw [Evaluation.outcome_bind]
  cases v.toBool <;> rfl

/-- The view of a value as a truth value, its complement and its text agree on whether the word is
one and on which. Of a genuine pointer the offset is read, and the text is that of a pointer. -/
structure ReadAlike (v : Value) : Prop where
  canonical_iff : (∃ b, v.toBool = .ok b) ↔ Kind.bool.Canonical v.bits
  complement_iff : (∃ b, v.toBool = .ok b) ↔ ∃ w, (unary .not ⟨v, .bool⟩).outcome = .ok w
  complement (b : Bool) : v.toBool = .ok b →
    (unary .not ⟨v, .bool⟩).outcome = .ok (.ofBool !b) ∧ (Value.ofBool !b).toBool = .ok !b
  text (b : Bool) : v.alloc = none → v.toBool = .ok b →
    Operand.describe ⟨v, .bool⟩ = .ok (if b then "true" else "false")
  refused (e : Violation) : v.toBool = .error e →
    e = .invalidBoolean v.bits.toNat ∧ (unary .not ⟨v, .bool⟩).outcome = .error (.violation e)
  refused_text (e : Violation) : v.alloc = none → v.toBool = .error e →
    ∃ t, Operand.describe ⟨v, .bool⟩ = .ok t ∧ t ≠ "true" ∧ t ≠ "false"

theorem readAlike (v : Value) : ReadAlike v where
  canonical_iff := Value.exists_toBool_iff
  complement_iff := by
    rw [outcome_not_bool]
    cases v.toBool <;> simp [Except.map, Except.mapError]
  complement b h := by
    rw [outcome_not_bool, h]
    exact ⟨rfl, Value.toBool_ofBool !b⟩
  text b ha h := by
    rw [Operand.describe_plain ha, Value.toBool_eq_ok_iff.mp h, Operand.plainText_ofBool]
  refused e h := by
    refine ⟨(Value.toBool_eq_error_iff.mp h).2, ?_⟩
    rw [outcome_not_bool, h]
    rfl
  refused_text e ha h :=
    have hw := (Value.toBool_eq_error_iff.mp h).1
    ⟨_, Operand.describe_plain ha .bool, Operand.plainText_ne_of_not_canonical hw⟩

/-- A pattern is read strictly unless it is negative, as no word is. -/
theorem truth_values_read (n : ℤ) (v : Value) : (ReadStrictly n ↔ 0 ≤ n) ∧ ReadAlike v :=
  ⟨readStrictly_iff, readAlike v⟩

end Evaluate

/-- A negative pattern stands for no truth value, and is not refused. -/
theorem readBool_negative : readBool (-1) = .ok false ∧ ¬ ReadStrictly (-1) := by
  refine ⟨rfl, fun h => ?_⟩
  have hrefused := h.refused (by decide)
  cases hrefused

end ScalarEval
