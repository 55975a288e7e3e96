import Mathlib
import ScalarEval.Proofs.OperandText
import ScalarEval.Proofs.Wrapping

/-! Integers in all the notations that operands may be written in. Whichever it is, the integer is
read, and at a kind without fractions it is stored modulo `2 ^ width`. -/
namespace ScalarEval

open Text

namespace Numeral
variable {m : ℕ} {n : ℤ} {c : Char} {cs ds before after : List Char}

/-- The prefixes that hexadecimal digits are read behind. -/
def hexPrefixes : List (List Char) :=
  [['0', 'x'], ['0', 'X'], ['$']]

/-- The ways to write a magnitude: in decimal, up to the limit on digits, and in hexadecimal,
behind one of the prefixes and in any mix of letter cases. -/
inductive Spells (m : ℕ) : List Char → Prop
  | decimal (h : (Nat.toDigits 10 m).length ≤ decimalLimit) : Spells m (Nat.toDigits 10 m)
  | hex {front ds : List Char} (hfront : front ∈ hexPrefixes)
      (hds : ds.map Char.toLower = hexDigits m) : Spells m (front ++ ds)

/-- An integer as it may be written: the minus before a magnitude, and blanks around both. -/
def Written (n : ℤ) (text : List Char) : Prop :=
  ∃ before cs after, (∀ c ∈ before, isBlank c = true) ∧ (∀ c ∈ after, isBlank c = true) ∧
    Spells n.natAbs cs ∧ text = before ++ (withSign n fun _ => cs).toList ++ after

theorem isDigitOf_of_map_toLower (hds : ds.map Char.toLower = hexDigits m) (hc : c ∈ ds) :
    isDigitOf 16 c = true := by
  have hmem : c.toLower ∈ hexDigits m := hds ▸ List.mem_map_of_mem hc
  have hlower := isDigitOf_of_mem_toDigits (by norm_num) (by norm_num) hmem
  rwa [isDigitOf, digitValue?_toLower] at hlower

/-- Behind a prefix the digits are read in base 16. -/
theorem readNotation_hex {front : List Char} (hfront : front ∈ hexPrefixes)
    (h : ∀ c ∈ ds, isDigitOf 16 c = true) (hne : ds ≠ []) :
    readNotation (front ++ ds) = .ok (ofDigits 16 ds) := by
  simp only [hexPrefixes, List.mem_cons, List.not_mem_nil, or_false] at hfront
  rcases hfront with rfl | rfl | rfl
  · exact readBase_prefixed (.inl rfl) h hne
  · exact readBase_prefixed (.inr rfl) h hne
  · exact readBase_digits h hne (absurd · (by norm_num))

theorem Spells.readNotation (h : Spells m cs) : Numeral.readNotation cs = .ok m := by
  cases h with
  | decimal h => exact readNotation_toDigits h
  | @hex front ds hfront hds =>
    have hne : ds ≠ [] := by
      rintro rfl
      exact Nat.toDigits_ne_nil hds.symm
    have hvalue : ofDigits 16 ds = m := by
      rw [← ofDigits_map_toLower, hds]
      exact ofDigits_toDigits (by norm_num) (by norm_num) m
    rw [readNotation_hex hfront (fun c hc => isDigitOf_of_map_toLower hds hc) hne, hvalue]

theorem not_isSeparator_of_mem_hexPrefixes {front : List Char} (hfront : front ∈ hexPrefixes)
    (hc : c ∈ front) : ¬ IsSeparator c := by
  have hchars : ∀ front ∈ hexPrefixes, front ⊆ ['0', 'x', 'X', '$'] := by simp [hexPrefixes]
  have hmem := hchars front hfront hc
  simp only [List.mem_cons, List.not_mem_nil, or_false] at hmem
  unfold IsSeparator
  rcases hmem with rfl | rfl | rfl | rfl <;> decide

theorem Spells.not_isSeparator (h : Spells m cs) (hc : c ∈ cs) : ¬ IsSeparator c := by
  cases h with
  | decimal => exact not_isSeparator_of_mem_toDigits hc
  | @hex front ds hfront hds =>
    rcases List.mem_append.mp hc with hc | hc
    · exact not_isSeparator_of_mem_hexPrefixes hfront hc
    · exact not_isSeparator_of_isDigitOf (isDigitOf_of_map_toLower hds hc)

theorem Spells.not_isSeparator_of_mem_withSign (h : Spells n.natAbs cs)
    (hminus : c ≠ '-') (hc : c ∈ (withSign n fun _ => cs).toList) : ¬ IsSeparator c :=
  Text.not_isSeparator_of_mem_withSign (fun _ hd => h.not_isSeparator hd) hminus hc

/-- Blanks around an integer are not read. -/
theorem read_surrounded (hbefore : ∀ c ∈ before, isBlank c = true)
    (hafter : ∀ c ∈ after, isBlank c = true) (h : ∀ c ∈ cs, isBlank c = false) :
    read (before ++ cs ++ after) = read cs := by
  rw [read, read, trim_surrounded hbefore hafter h, trim_eq_self h]

theorem Written.read (h : Written n cs) : Numeral.read cs = .ok n := by
  obtain ⟨before, ds, after, hbefore, hafter, hds, rfl⟩ := h
  have hblank : ∀ c ∈ (withSign n fun _ => ds).toList, isBlank c = false := by
    intro c hc
    by_cases hminus : c = '-'
    · rw [hminus]
      decide
    · exact isBlank_eq_false (hds.not_isSeparator_of_mem_withSign hminus hc)
  rw [read_surrounded hbefore hafter hblank]
  exact read_withSign (fun _ hd => hds.not_isSeparator hd) hds.readNotation

theorem Written.notMem_colon (h : Written n cs) : ':' ∉ cs := by
  obtain ⟨before, ds, after, hbefore, hafter, hds, rfl⟩ := h
  have hblank : isBlank ':' ≠ true := by decide
  intro hc
  rcases List.mem_append.mp hc with hc | hc
  · rcases List.mem_append.mp hc with hc | hc
    · exact hblank (hbefore _ hc)
    · exact hds.not_isSeparator_of_mem_withSign (by decide) hc Operand.isSeparator_colon
  · exact hblank (hafter _ hc)

end Numeral

namespace Operand
variable {k : Kind} {text : String} {n : ℤ}

theorem read_eq_ofInt (hk : k.isFloating = false) (hbool : k ≠ .bool) (hcolon : ':' ∉ text.toList)
    (h : Numeral.read text.toList = .ok n) : read text k = .ok (.ofInt n k) := by
  have hread : read text k = readInteger text k := by
    cases hi : k.isInteger with
    | true => exact read_of_isInteger hi text
    | false =>
      obtain rfl := (k.eq_bool_or_ptr_iff.mpr ⟨hk, hi⟩).resolve_left hbool
      exact read_ptr text
  rw [hread, readInteger_of_notMem hcolon, h]
  rfl

/-- An integer is read from each of its notations, and texts of integers are the same operand if and
only if the integers agree modulo the width of the kind. -/
theorem integer_notations :
    (∀ n cs, Numeral.Written n cs → Numeral.read cs = .ok n ∧ ':' ∉ cs) ∧
      ∀ (k : Kind) (t u : String) (m n : ℤ), k.isFloating = false → k ≠ .bool →
        ':' ∉ t.toList → ':' ∉ u.toList →
        Numeral.read t.toList = .ok m → Numeral.read u.toList = .ok n →
        ∃ v w, read t k = .ok v ∧ read u k = .ok w ∧ (v = w ↔ m ≡ n [ZMOD 2 ^ k.width]) := by
  refine ⟨fun n cs h => ⟨h.read, h.notMem_colon⟩, ?_⟩
  intro k t u m n hk hbool ht hu hm hn
  refine ⟨_, _, read_eq_ofInt hk hbool ht hm, read_eq_ofInt hk hbool hu hn, ?_⟩
  rw [Value.ofInt_eq_ofInt_iff, Kind.wrap_eq_wrap_iff]

/-- The digits of `-255` and `1` in two notations are one and the same operand of `u8`. -/
theorem integer_notations_letter_case :
    Numeral.Written (-255) " -$fF".toList ∧ Numeral.Written 1 "0X1".toList ∧
      ∃ v, read " -$fF" .u8 = .ok v ∧ read "0X1" .u8 = .ok v := by
  have hds : Numeral.Spells 255 (['$'] ++ ['f', 'F']) := .hex (by decide) (by decide +kernel)
  have hds' : Numeral.Spells 1 (['0', 'X'] ++ ['1']) := .hex (by decide) (by decide +kernel)
  have hwritten : Numeral.Written (-255) " -$fF".toList :=
    ⟨[' '], _, [], by simp; decide, by simp, hds, rfl⟩
  have hwritten' : Numeral.Written 1 "0X1".toList :=
    ⟨[], _, [], by simp, by simp, hds', rfl⟩
  refine ⟨hwritten, hwritten', ?_⟩
  obtain ⟨hread, hstored⟩ := integer_notations
  obtain ⟨hm, ht⟩ := hread _ _ hwritten
  obtain ⟨hn, hu⟩ := hread _ _ hwritten'
  obtain ⟨v, w, hv, hw, hiff⟩ := hstored .u8 " -$fF" "0X1" _ _ rfl (by decide) ht hu hm hn
  obtain rfl : v = w := hiff.mpr (by decide)
  exact ⟨v, hv, hw⟩

end Operand
end ScalarEval
