import Mathlib
import ScalarEval.Proofs.OperandText

/-! Values of operands that are read. The kind decides how a text is read and stored, but at kinds
that are read as integers a colon makes a pointer of any text, whichever of these kinds it is. -/
namespace ScalarEval
namespace Operand
variable {text : String} {k : Kind} {v : Value}

/-- An operand that is read at `bool` is a truth value. -/
theorem exists_of_read_bool (h : read text .bool = .ok v) : ∃ b, v = .ofBool b := by
  change readTruth text = .ok v at h
  unfold readTruth at h
  dsimp only at h
  split_ifs at h
  · exact ⟨true, (Except.ok.inj h).symm⟩
  · exact ⟨false, (Except.ok.inj h).symm⟩

theorem exists_of_read_floating (hk : k.isFloating = true) (h : read text k = .ok v) :
    ∃ p, v = .ofBits (k.ofDouble p) := by
  have hc : k.category = .floating := by simpa [Kind.isFloating] using hk
  simp only [read, hc, readFloat] at h
  split at h
  next l _ =>
    rw [Value.ofDouble, Kind.floatView, if_pos hk] at h
    exact ⟨_, (Except.ok.inj h).symm⟩
  next => cases h

theorem exists_of_readInteger_colon (hcolon : ':' ∈ text.toList)
    (h : readInteger text k = .ok v) : ∃ a o, v = .ofPointer ⟨some (.number a), o⟩ := by
  unfold readInteger at h
  dsimp only at h
  split at h
  next hnone =>
    have hne := List.dropWhile_eq_nil_iff.mp hnone ':' hcolon
    simp at hne
  next rest _ =>
    obtain ⟨a, -, h⟩ := exists_of_bind_eq_ok h
    obtain ⟨o, -, h⟩ := exists_of_bind_eq_ok h
    exact ⟨a, o, (Except.ok.inj h).symm⟩

theorem exists_of_readInteger (hcolon : ':' ∉ text.toList) (h : readInteger text k = .ok v) :
    ∃ n, Numeral.read text.toList = .ok n ∧ v = .ofInt n k := by
  rw [readInteger_of_notMem hcolon] at h
  obtain ⟨n, rfl, hn⟩ := exists_of_map_eq_ok h
  exact ⟨n, hn, rfl⟩

/-- An operand is as values are stored: in a canonical word of its kind, and with an allocation at
`ptr` only. -/
structure Stored (o : Operand) : Prop where
  canonical : o.Canonical
  pointer : o.value.isPointer = true → o.kind = .ptr

theorem stored_plain {w : BitVec 64} (h : k.Canonical w) : Stored ⟨.ofBits w, k⟩ where
  canonical := h
  pointer hp := by cases hp

/-- What is read is stored as its kind has it, pointers at integer kinds excepted. -/
theorem stored_read_iff (h : read text k = .ok v) :
    Stored ⟨v, k⟩ ↔ ¬ (k.isInteger = true ∧ ':' ∈ text.toList) := by
  cases hf : k.isFloating with
  | true =>
    obtain ⟨p, rfl⟩ := exists_of_read_floating hf h
    refine iff_of_true (stored_plain (Kind.canonical_ofDouble hf p)) fun hi => ?_
    rw [Kind.isFloating_eq_false hi.1] at hf
    cases hf
  | false =>
    cases hi : k.isInteger with
    | true =>
      rw [read_of_isInteger hi] at h
      by_cases hcolon : ':' ∈ text.toList
      · obtain ⟨a, o, rfl⟩ := exists_of_readInteger_colon hcolon h
        refine iff_of_false (fun hs => ?_) (not_not.mpr ⟨rfl, hcolon⟩)
        obtain rfl : k = .ptr := hs.pointer rfl
        cases hi
      · obtain ⟨n, -, rfl⟩ := exists_of_readInteger hcolon h
        exact iff_of_true (stored_plain (Kind.canonical_extend hi n)) fun hn => hcolon hn.2
    | false =>
      refine iff_of_true ?_ fun hn => Bool.false_ne_true hn.1
      rcases k.eq_bool_or_ptr_iff.mpr ⟨hf, hi⟩ with rfl | rfl
      · obtain ⟨b, rfl⟩ := exists_of_read_bool h
        exact stored_plain (Kind.canonical_ofBool b)
      · exact ⟨Kind.canonical_ptr v.bits, fun _ => rfl⟩

theorem stored_read_negative_i8 :
    read "-0x80" .i8 = .ok (.ofBits 0xffffffffffffff80) ∧
      Stored ⟨.ofBits 0xffffffffffffff80, .i8⟩ := by
  have hread : read "-0x80" .i8 = .ok (.ofBits 0xffffffffffffff80) := by decide +kernel
  have hcolon : ':' ∉ "-0x80".toList := by decide
  exact ⟨hread, (stored_read_iff hread).mpr fun h => hcolon h.2⟩

/-- At `u8` a text with a colon is read as a pointer, its offset as wide as a word. -/
theorem read_pointer_u8 :
    read "7:0x100" .u8 = .ok ⟨0x100, some (.number 7)⟩ ∧
      ¬ Kind.u8.Canonical 0x100 ∧ ¬ Stored ⟨⟨0x100, some (.number 7)⟩, .u8⟩ := by
  have hword : ¬ Kind.u8.Canonical 0x100 := by decide
  exact ⟨by decide +kernel, hword, fun h => hword h.canonical⟩

end Operand
end ScalarEval
