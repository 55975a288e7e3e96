import Mathlib
import ScalarEval.Numeral
import ScalarEval.Proofs.Text.Digits

/-! Numerals that are read. Digits of a base denote a number in it, alone or after the prefix of
the base, and a written integer is read as itself. -/
namespace ScalarEval.Numeral

open Text

section Digits
variable {base : ℕ} {c : Char} {cs ds : List Char}

theorem isSome_of_isDigitOf (h : isDigitOf base c = true) : (digitValue? c).isSome = true := by
  unfold isDigitOf at h
  cases hc : digitValue? c with
  | none => simp [hc] at h
  | some d => rfl

theorem isDigitOf_of_mem_toDigits {n : ℕ} (hb : 1 < base) (hb' : base ≤ 16)
    (h : c ∈ base.toDigits n) : isDigitOf base c = true := by
  obtain ⟨d, hd, rfl⟩ := exists_digitChar_of_mem_toDigits hb h
  simp [isDigitOf, digitValue?_digitChar d (by omega), hd]

theorem not_isSeparator_of_isDigitOf (h : isDigitOf base c = true) : ¬ IsSeparator c :=
  not_isSeparator (isSome_of_isDigitOf h)

theorem isBlank_eq_false (h : ¬ IsSeparator c) : isBlank c = false := by
  cases hc : isBlank c with
  | true => exact absurd (.inl hc) h
  | false => rfl

theorem isWhiteSpace_eq_false (h : isBlank c = false) : isWhiteSpace c = false :=
  (Bool.or_eq_false_iff.mp h).1

theorem splitSign_eq (h : ∀ c ∈ cs, c ∉ ['+', '-']) : splitSign cs = (false, cs) := by
  unfold splitSign
  split
  next => simp at h
  next => simp at h
  next => rfl

/-- A run of digits is read to its end. -/
theorem digits?_eq_some (hbody : (if base = 16 then dropHexPrefix cs else cs) = ds)
    (h : ∀ c ∈ ds, isDigitOf base c = true) : digits? base cs = some (ds, []) := by
  have hunderscore : '_' ∉ ds := fun hm =>
    not_isSeparator_of_isDigitOf (h _ hm) (.inr (by simp))
  have hpart : ∀ c ∈ ds, (isDigitOf base c || decide (c = '_')) = true := by
    intro c hc
    rw [h c hc, Bool.true_or]
  unfold digits?
  simp only [hbody, List.takeWhile_eq_self_iff.mpr hpart, List.dropWhile_eq_nil_iff.mpr hpart,
    ungroup?_eq_some hunderscore]
  rfl

theorem readBase_eq_ok (hblank : ∀ c ∈ cs, isBlank c = false) (hsign : ∀ c ∈ cs, c ∉ ['+', '-'])
    (hbody : (if base = 16 then dropHexPrefix cs else cs) = ds)
    (h : ∀ c ∈ ds, isDigitOf base c = true) (hne : ds ≠ [])
    (hlimit : base = 10 → ds.length ≤ decimalLimit) :
    readBase base cs = .ok (ofDigits base ds) := by
  have htrim : trim isWhiteSpace cs = cs :=
    trim_eq_self fun c hc => isWhiteSpace_eq_false (hblank c hc)
  have hshort : ¬ (base = 10 ∧ decimalLimit < ds.length) := fun hl =>
    absurd (hlimit hl.1) (by omega)
  unfold readBase
  simp only [htrim, splitSign_eq hsign, digits?_eq_some hbody h, if_neg hshort]
  simp [hne]

/-- A prefix needs a letter, and no letter behind the digits of base 16 is one of them. -/
theorem dropHexPrefix_eq_self (h : ∀ c ∈ cs, isDigitOf 16 c = true) : dropHexPrefix cs = cs := by
  unfold dropHexPrefix
  split
  next z x cs =>
    have hx := h x (by simp)
    have hprefix : ¬ (decimalValue? z = some 0 ∧ (x = 'x' ∨ x = 'X')) := by
      rintro ⟨-, rfl | rfl⟩ <;> exact absurd hx (by decide)
    rw [if_neg hprefix]
  next => rfl

theorem readBase_digits (h : ∀ c ∈ ds, isDigitOf base c = true) (hne : ds ≠ [])
    (hlimit : base = 10 → ds.length ≤ decimalLimit) :
    readBase base ds = .ok (ofDigits base ds) := by
  have hsep : ∀ c ∈ ds, ¬ IsSeparator c := fun c hc => not_isSeparator_of_isDigitOf (h c hc)
  apply readBase_eq_ok (fun c hc => isBlank_eq_false (hsep c hc)) _ _ h hne hlimit
  · exact fun c hc hm => hsep c hc (.inr (List.mem_append_left _ hm))
  · split
    next hb =>
      subst hb
      exact dropHexPrefix_eq_self h
    next => rfl

theorem readBase_prefixed {x : Char} (hx : x = 'x' ∨ x = 'X')
    (h : ∀ c ∈ ds, isDigitOf 16 c = true) (hne : ds ≠ []) :
    readBase 16 ('0' :: x :: ds) = .ok (ofDigits 16 ds) := by
  have hsep : ∀ c ∈ '0' :: x :: ds, ¬ IsSeparator c := by
    intro c hc
    rcases List.mem_cons.mp hc with rfl | hc
    · exact not_isSeparator (by decide)
    · rcases List.mem_cons.mp hc with rfl | hc
      · rcases hx with rfl | rfl <;> exact not_isSeparator (by decide)
      · exact not_isSeparator_of_isDigitOf (h c hc)
  have hzero : decimalValue? '0' = some 0 := by decide
  have hten : ¬ 16 = 10 := by norm_num
  apply readBase_eq_ok (fun c hc => isBlank_eq_false (hsep c hc)) _ _ h hne (absurd · hten)
  · exact fun c hc hm => hsep c hc (.inr (List.mem_append_left _ hm))
  · simp only [if_true, dropHexPrefix, hzero, hx, and_self]
    split
    next => exact absurd (h '_' (by simp)) (by decide)
    next => rfl

end Digits

section Notations
variable {ds : List Char}

theorem readNotation_decimal (h : ∀ c ∈ ds, isDigitOf 10 c = true) :
    readNotation ds = readBase 10 ds := by
  unfold readNotation
  split
  next => exact absurd (h '$' (by simp)) (by decide)
  next => exact absurd (h 'x' (by simp)) (by decide)
  next => exact absurd (h 'X' (by simp)) (by decide)
  next => rfl

theorem readNotation_toDigits {n : ℕ} (h : (Nat.toDigits 10 n).length ≤ decimalLimit) :
    readNotation (Nat.toDigits 10 n) = .ok n := by
  have hdigit : ∀ c ∈ Nat.toDigits 10 n, isDigitOf 10 c = true := fun c hc =>
    isDigitOf_of_mem_toDigits (by norm_num) (by norm_num) hc
  rw [readNotation_decimal hdigit, readBase_digits hdigit Nat.toDigits_ne_nil fun _ => h,
    ofDigits_toDigits (by norm_num) (by norm_num)]

theorem readNotation_hexDigits (n : ℕ) : readNotation ('0' :: 'x' :: hexDigits n) = .ok n := by
  have hdigit : ∀ c ∈ hexDigits n, isDigitOf 16 c = true := fun c hc =>
    isDigitOf_of_mem_toDigits (by norm_num) (by norm_num) hc
  have hvalue : ofDigits 16 (hexDigits n) = n := ofDigits_toDigits (by norm_num) (by norm_num) n
  change readBase 16 ('0' :: 'x' :: hexDigits n) = _
  rw [readBase_prefixed (.inl rfl) hdigit Nat.toDigits_ne_nil, hvalue]

/-- The sign of an integer is read apart from its notation. -/
theorem read_withSign {n : ℤ} {magnitude : ℕ → List Char}
    (hsep : ∀ c ∈ magnitude n.natAbs, ¬ IsSeparator c)
    (h : readNotation (magnitude n.natAbs) = .ok n.natAbs) :
    read (withSign n magnitude).toList = .ok n := by
  have hblank : ∀ c ∈ magnitude n.natAbs, isBlank c = false := fun c hc =>
    isBlank_eq_false (hsep c hc)
  unfold read withSign
  rw [String.toList_ofList]
  split_ifs with hn
  · have hneg : ∀ c ∈ '-' :: magnitude n.natAbs, isBlank c = false := by
      intro c hc
      rcases List.mem_cons.mp hc with rfl | hc
      · decide
      · exact hblank c hc
    have hvalue : -(n.natAbs : ℤ) = n := by omega
    rw [trim_eq_self hneg]
    simp only [h, Except.map, hvalue]
  · have hvalue : (n.natAbs : ℤ) = n := by omega
    rw [trim_eq_self hblank]
    split
    next hm => exact absurd (.inr (by simp)) (hsep '-' (by simp [hm]))
    next => rw [h, hvalue]

theorem read_decimal {n : ℤ} (h : (Nat.toDigits 10 n.natAbs).length ≤ decimalLimit) :
    read (decimal n).toList = .ok n :=
  read_withSign (fun _ hc => not_isSeparator_of_mem_toDigits hc) (readNotation_toDigits h)

theorem read_hex (n : ℤ) : read (hex n).toList = .ok n :=
  read_withSign (fun _ hc => not_isSeparator_of_mem_hex hc) (readNotation_hexDigits n.natAbs)

end Notations
end ScalarEval.Numeral
