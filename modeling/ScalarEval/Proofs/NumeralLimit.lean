import Mathlib
import ScalarEval.Proofs.NumeralSign
import ScalarEval.Proofs.WrittenInteger

/-! Integers beyond the limit on decimal digits. A decimal numeral of more digits is not read, so
such an integer is read from hexadecimal notation alone. -/
namespace ScalarEval.Numeral

open Text

variable {base : ℕ} {c : Char} {cs ds rest : List Char} {n : ℤ}

theorem isDigitOf_of_mem_digits? (h : digits? base cs = some (ds, rest)) (hc : c ∈ ds) :
    isDigitOf base c = true := by
  unfold digits? at h
  obtain ⟨digits, hdigits, hread⟩ := Option.bind_eq_some_iff.mp h
  obtain rfl : digits = ds := congrArg Prod.fst (Option.some.inj hread)
  obtain ⟨hmem, hne⟩ := mem_of_ungroup? hdigits hc
  have hpart := List.mem_takeWhile_imp hmem
  simpa [hne] using hpart

theorem getD_digitValue?_lt (h : isDigitOf base c = true) : (digitValue? c).getD 0 < base := by
  unfold isDigitOf at h
  cases hc : digitValue? c with
  | none => simp [hc] at h
  | some d => simpa [hc] using h

/-- A decimal numeral that is read is short of the limit, and so is its magnitude. -/
theorem natAbs_lt_of_readBase (h : readBase 10 cs = .ok n) : n.natAbs < 10 ^ decimalLimit := by
  rcases hsplit : splitSign (trim isWhiteSpace cs) with ⟨negative, body⟩
  obtain ⟨ds, hdigits, hshort, rfl⟩ := exists_digits?_of_readBase hsplit h
  have hlt : ofDigits 10 ds < 10 ^ ds.length :=
    ofDigits_lt_pow fun c hc => getD_digitValue?_lt (isDigitOf_of_mem_digits? hdigits hc)
  have habs : (if negative then -(ofDigits 10 ds : ℤ) else ofDigits 10 ds).natAbs =
      ofDigits 10 ds := by
    split <;> simp
  rw [habs]
  exact hlt.trans_le (Nat.pow_le_pow_right (by norm_num) (hshort rfl))

/-- A text in one of the hexadecimal notations. -/
def IsHexadecimal (cs : List Char) : Prop :=
  ∃ front ∈ hexPrefixes, front <+: dropFirst '-' (trim isBlank cs)

theorem readBase_of_readNotation (hx : ¬ ∃ front ∈ hexPrefixes, front <+: cs)
    (h : readNotation cs = .ok n) : readBase 10 cs = .ok n := by
  unfold readNotation at h
  split at h
  next ds => exact absurd ⟨['$'], by simp [hexPrefixes], ds, rfl⟩ hx
  next ds => exact absurd ⟨['0', 'x'], by simp [hexPrefixes], ds, rfl⟩ hx
  next ds => exact absurd ⟨['0', 'X'], by simp [hexPrefixes], ds, rfl⟩ hx
  next => exact h

theorem exists_readNotation_of_read (h : read cs = .ok n) :
    ∃ m, readNotation (dropFirst '-' (trim isBlank cs)) = .ok m ∧ n.natAbs = m.natAbs := by
  unfold read at h
  split at h
  next ds htrim =>
    obtain ⟨m, rfl, hm⟩ := exists_of_map_eq_ok h
    rw [htrim]
    exact ⟨m, hm, Int.natAbs_neg m⟩
  next hminus =>
    have hhead : (trim isBlank cs).head? ≠ some '-' := fun he => by
      obtain ⟨rest, hrest⟩ := List.head?_eq_some_iff.mp he
      exact hminus rest hrest
    rw [dropFirst_eq_self hhead]
    exact ⟨n, h, rfl⟩

/-- An integer at the limit or beyond is read from hexadecimal notation. -/
theorem isHexadecimal_of_read (h : read cs = .ok n) (hn : 10 ^ decimalLimit ≤ n.natAbs) :
    IsHexadecimal cs := by
  obtain ⟨m, hm, habs⟩ := exists_readNotation_of_read h
  by_contra hx
  have hlt := natAbs_lt_of_readBase (readBase_of_readNotation hx hm)
  rw [← habs] at hlt
  exact absurd hn (Nat.not_le.mpr hlt)

end ScalarEval.Numeral
