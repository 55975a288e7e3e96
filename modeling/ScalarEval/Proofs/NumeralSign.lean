import Mathlib
import ScalarEval.Proofs.Ending
import ScalarEval.Proofs.Numeral

/-! Signs of integers that are read. A numeral has one sign at most, in front of its digits. A minus
before a notation and the prefix `$` are taken off before the numeral is read, so a sign may follow
either of them as well. -/
namespace ScalarEval.Numeral

open Text

/-- A plus or a minus. -/
def IsSign (c : Char) : Prop :=
  c ∈ ['+', '-']

instance : DecidablePred IsSign := fun c => inferInstanceAs (Decidable (c ∈ ['+', '-']))

section Base
variable {base : ℕ} {c : Char} {cs ds : List Char} {n : ℤ}

theorem IsSign.isSeparator (h : IsSign c) : IsSeparator c :=
  .inr (List.mem_append_left _ h)

theorem IsSign.isWhiteSpace_eq_false (h : IsSign c) : isWhiteSpace c = false := by
  rcases List.mem_pair.mp h with rfl | rfl <;> decide

theorem IsSign.ne_of_isSome (h : IsSign c) {d : Char} (hd : (digitValue? d).isSome = true) :
    c ≠ d := by
  rintro rfl
  exact not_isSeparator hd h.isSeparator

/-- Neither the prefix of hexadecimal numerals nor an underscore after it is a sign. -/
theorem IsSign.mem_dropHexPrefix (h : IsSign c) (hc : c ∈ cs) : c ∈ dropHexPrefix cs := by
  unfold dropHexPrefix
  split
  next z x cs =>
    split_ifs with hprefix
    · obtain ⟨hz, hx⟩ := hprefix
      have hz' : c ≠ z := by
        apply h.ne_of_isSome
        apply isSome_of_isDecimalDigit
        rw [isDecimalDigit, hz]
        rfl
      have hx' : c ≠ x := by
        rcases hx with rfl | rfl <;> exact h.ne_of_isSome (by decide)
      have hunderscore : c ≠ '_' := by
        rcases List.mem_pair.mp h with rfl | rfl <;> decide
      have hrest : c ∈ cs := by simpa [hz', hx'] using hc
      split
      next ds => simpa [hunderscore] using hrest
      next => exact hrest
    · exact hc
  next => exact hc

/-- Digits that are read to the end have no sign among them. -/
theorem not_isSign_of_digits? (h : digits? base cs = some (ds, [])) (hc : c ∈ cs) :
    ¬ IsSign c := by
  intro hs
  have hbody : c ∈ if base = 16 then dropHexPrefix cs else cs := by
    split_ifs
    · exact hs.mem_dropHexPrefix hc
    · exact hc
  unfold digits? at h
  obtain ⟨digits, -, hread⟩ := Option.bind_eq_some_iff.mp h
  have hrest := congrArg Prod.snd (Option.some.inj hread)
  have hpart := List.dropWhile_eq_nil_iff.mp hrest c hbody
  rcases Bool.or_eq_true_iff.mp hpart with hdigit | hunderscore
  · exact not_isSeparator_of_isDigitOf hdigit hs.isSeparator
  · obtain rfl : c = '_' := of_decide_eq_true hunderscore
    exact absurd hs (by decide)

theorem exists_digits?_of_readBase {negative : Bool} {body : List Char}
    (hsplit : splitSign (trim isWhiteSpace cs) = (negative, body)) (h : readBase base cs = .ok n) :
    ∃ ds, digits? base body = some (ds, []) ∧ (base = 10 → ds.length ≤ decimalLimit) ∧
      n = if negative then -(ofDigits base ds : ℤ) else ofDigits base ds := by
  unfold readBase at h
  rw [hsplit] at h
  dsimp only at h
  split at h
  next => cases h
  next ds rest hdigits =>
    split at h
    next => cases h
    next hlimit =>
      split at h
      next => cases h
      next hbad =>
        obtain ⟨-, rfl⟩ : ds ≠ [] ∧ rest = [] := by simpa using hbad
        have hshort : base = 10 → ds.length ≤ decimalLimit := fun hb =>
          Nat.not_lt.mp fun hlong => hlimit ⟨hb, hlong⟩
        exact ⟨ds, hdigits, hshort, (Except.ok.inj h).symm⟩

theorem splitSign_cases (cs : List Char) :
    (∃ s rest, cs = s :: rest ∧ IsSign s ∧ splitSign cs = (decide (s = '-'), rest)) ∨
      splitSign cs = (false, cs) := by
  unfold splitSign
  split
  next rest => exact .inl ⟨'-', rest, rfl, by decide, rfl⟩
  next rest => exact .inl ⟨'+', rest, rfl, by decide, rfl⟩
  next => exact .inr rfl

/-- A numeral has no sign, or has one with nothing but white space before it. -/
theorem signs_of_readBase (h : readBase base cs = .ok n) :
    ((∀ c ∈ cs, ¬ IsSign c) ∧ 0 ≤ n) ∨
      ∃ s rest, cs.dropWhile isWhiteSpace = s :: rest ∧ IsSign s ∧ (∀ c ∈ rest, ¬ IsSign c) ∧
        (s ≠ '-' → 0 ≤ n) := by
  rcases splitSign_cases (trim isWhiteSpace cs) with ⟨s, rest, htrim, hs, hsplit⟩ | hsplit
  · obtain ⟨ds, hdigits, -, rfl⟩ := exists_digits?_of_readBase hsplit h
    obtain ⟨after, hdrop, hafter⟩ := exists_dropWhile_eq_trim isWhiteSpace cs
    refine .inr ⟨s, rest ++ after, by rw [hdrop, htrim, List.cons_append], hs, ?_, ?_⟩
    · intro c hc hsign
      rcases List.mem_append.mp hc with hc | hc
      · exact not_isSign_of_digits? hdigits hc hsign
      · exact Bool.false_ne_true (hsign.isWhiteSpace_eq_false.symm.trans (hafter c hc))
    · intro hplus
      rw [if_neg (by simpa using hplus)]
      positivity
  · obtain ⟨ds, hdigits, -, rfl⟩ := exists_digits?_of_readBase hsplit h
    refine .inl ⟨fun c hc hsign => ?_, by simp⟩
    have hmem := mem_trim_of_mem hc hsign.isWhiteSpace_eq_false
    exact not_isSign_of_digits? hdigits hmem hsign

end Base

section Notations
variable {c first : Char} {cs text : List Char} {n : ℤ}

/-- A text without its first character, when that is a given one. -/
def dropFirst (first : Char) : List Char → List Char
  | [] => []
  | c :: cs => if c = first then cs else c :: cs

theorem dropFirst_eq_self (h : cs.head? ≠ some first) : dropFirst first cs = cs := by
  cases cs with
  | nil => rfl
  | cons d cs =>
    rw [dropFirst, if_neg]
    rintro rfl
    exact h rfl

theorem dropFirst_eq_tail (h : cs.head? = some first) : dropFirst first cs = cs.tail := by
  obtain ⟨rest, rfl⟩ := List.head?_eq_some_iff.mp h
  exact if_pos rfl

theorem tail_subset_dropFirst (first : Char) (cs : List Char) :
    cs.tail ⊆ dropFirst first cs := by
  by_cases h : cs.head? = some first
  · rw [dropFirst_eq_tail h]
    exact List.Subset.refl _
  · rw [dropFirst_eq_self h]
    exact List.tail_subset cs

theorem dropFirst_subset (first : Char) (cs : List Char) : dropFirst first cs ⊆ cs := by
  by_cases h : cs.head? = some first
  · rw [dropFirst_eq_tail h]
    exact List.tail_subset cs
  · rw [dropFirst_eq_self h]
    exact List.Subset.refl _

theorem mem_dropFirst (h : c ∈ cs) (hc : c ≠ first) : c ∈ dropFirst first cs := by
  cases cs with
  | nil => exact h
  | cons d cs =>
    by_cases hd : d = first
    · rcases List.mem_cons.mp h with rfl | h
      · exact absurd hd hc
      · exact tail_subset_dropFirst first (d :: cs) h
    · rwa [dropFirst, if_neg hd]

/-- What is read as a numeral, of whichever base: neither a minus nor the prefix `$` belongs to it,
but the prefix `0x` does. -/
def numeralPart (cs : List Char) : List Char :=
  dropFirst '$' (dropFirst '-' cs)

theorem numeralPart_eq_self (hminus : cs.head? ≠ some '-') (hdollar : cs.head? ≠ some '$') :
    numeralPart cs = cs := by
  rw [numeralPart, dropFirst_eq_self hminus, dropFirst_eq_self hdollar]

theorem numeralPart_subset_tail (h : cs.head? = some '-' ∨ cs.head? = some '$') :
    numeralPart cs ⊆ cs.tail := by
  unfold numeralPart
  rcases h with h | h
  · rw [dropFirst_eq_tail h]
    exact dropFirst_subset '$' cs.tail
  · have hminus : cs.head? ≠ some '-' := by simp [h]
    rw [dropFirst_eq_self hminus, dropFirst_eq_tail h]
    exact List.Subset.refl _

theorem IsSign.mem_numeralPart (h : IsSign c) (hc : c ∈ cs.tail) : c ∈ numeralPart cs := by
  apply mem_dropFirst (tail_subset_dropFirst '-' cs hc)
  rcases List.mem_pair.mp h with rfl | rfl <;> decide

theorem exists_readBase_of_readNotation (h : readNotation cs = .ok n) :
    ∃ base, readBase base (dropFirst '$' cs) = .ok n := by
  unfold readNotation at h
  split at h
  next => exact ⟨16, h⟩
  next => exact ⟨16, h⟩
  next => exact ⟨16, h⟩
  next hdollar _ _ =>
    have hhead : cs.head? ≠ some '$' := fun he => by
      obtain ⟨rest, rfl⟩ := List.head?_eq_some_iff.mp he
      exact hdollar rest rfl
    exact ⟨10, by rwa [dropFirst_eq_self hhead]⟩

/-- An integer is its numeral, or the opposite of it when the text starts with a minus. -/
theorem exists_readBase_of_read (h : read text = .ok n) :
    ∃ base m, readBase base (numeralPart (trim isBlank text)) = .ok m ∧
      n = if (trim isBlank text).head? = some '-' then -m else m := by
  unfold read at h
  split at h
  next ds ht =>
    obtain ⟨m, rfl, hm⟩ := exists_of_map_eq_ok h
    obtain ⟨base, hbase⟩ := exists_readBase_of_readNotation hm
    exact ⟨base, m, by rw [ht]; exact hbase, by rw [ht]; rfl⟩
  next hminus =>
    have hhead : (trim isBlank text).head? ≠ some '-' := fun he => by
      obtain ⟨rest, hrest⟩ := List.head?_eq_some_iff.mp he
      exact hminus rest hrest
    obtain ⟨base, hbase⟩ := exists_readBase_of_readNotation h
    exact ⟨base, n, by rwa [numeralPart, dropFirst_eq_self hhead], (if_neg hhead).symm⟩

/-- One sign at most, which is the first character, and which the integer has. -/
structure OneSign (cs : List Char) (n : ℤ) : Prop where
  nonpos : cs.head? = some '-' → n ≤ 0
  nonneg : cs.head? ≠ some '-' → 0 ≤ n
  leading : ∀ c ∈ cs.tail, ¬ IsSign c

/-- A sign behind a leading minus or behind the prefix `$`, white space between them apart. -/
def HasInnerSign (cs : List Char) : Prop :=
  (cs.head? = some '-' ∨ cs.head? = some '$') ∧
    ∃ c ∈ ((numeralPart cs).dropWhile isWhiteSpace).head?, IsSign c

theorem not_hasInnerSign_of_oneSign (h : OneSign cs n) : ¬ HasInnerSign cs := by
  rintro ⟨hfirst, c, hc, hsign⟩
  have hmem : c ∈ numeralPart cs :=
    (List.dropWhile_sublist _).subset (List.mem_of_mem_head? hc)
  exact h.leading c (numeralPart_subset_tail hfirst hmem) hsign

theorem oneSign_of_forall_not_isSign {m : ℤ} (h : ∀ c ∈ numeralPart cs, ¬ IsSign c) (hm : 0 ≤ m) :
    OneSign cs (if cs.head? = some '-' then -m else m) where
  nonpos hminus := by
    rw [if_pos hminus]
    omega
  nonneg hminus := by rwa [if_neg hminus]
  leading c hc hsign := h c (hsign.mem_numeralPart hc) hsign

/-- An integer that is read has one sign at most, unless a sign stands inside its text. -/
theorem oneSign_iff (h : read text = .ok n) :
    OneSign (trim isBlank text) n ↔ ¬ HasInnerSign (trim isBlank text) := by
  refine ⟨not_hasInnerSign_of_oneSign, fun hinner => ?_⟩
  obtain ⟨base, m, hbase, rfl⟩ := exists_readBase_of_read h
  rcases signs_of_readBase hbase with ⟨hsigns, hm⟩ | ⟨s, rest, hdrop, hs, hrest, hm⟩
  · exact oneSign_of_forall_not_isSign hsigns hm
  -- A numeral with a sign is the whole text, since neither a minus nor `$` may stand before it.
  · have hfirst : ¬ ((trim isBlank text).head? = some '-' ∨ (trim isBlank text).head? = some '$') :=
      fun hfirst => hinner ⟨hfirst, s, by rw [hdrop]; rfl, hs⟩
    obtain ⟨hminus, hdollar⟩ := not_or.mp hfirst
    rw [numeralPart_eq_self hminus hdollar,
      dropWhile_trim fun _ => isBlank_of_isWhiteSpace] at hdrop
    rw [if_neg hminus]
    refine ⟨fun hneg => absurd hneg hminus, fun _ => hm fun hneg => hminus ?_, ?_⟩
    · rw [hdrop, hneg]
      rfl
    · rwa [hdrop]

/-- A minus and the prefix `$` may both stand before the digits, and no sign between them. -/
theorem oneSign_minus_dollar : OneSign "-$1F".toList (-31) := by
  have hread : read "-$1F".toList = .ok (-31) := by decide +kernel
  have htrim : trim isBlank "-$1F".toList = "-$1F".toList := by decide
  have hinner : ¬ HasInnerSign "-$1F".toList := by
    rintro ⟨-, c, hc, hsign⟩
    obtain rfl : '1' = c := Option.some.inj hc
    exact absurd hsign (by decide)
  have hiff := oneSign_iff hread
  rw [htrim] at hiff
  exact hiff.mpr hinner

/-- A second minus behind the first is read, and so is a plus behind `$`. -/
theorem read_inner_sign :
    read "--5".toList = .ok 5 ∧ read "$+5".toList = .ok 5 ∧
      ¬ OneSign "--5".toList 5 ∧ ¬ OneSign "$+5".toList 5 := by
  refine ⟨by decide +kernel, by decide +kernel, fun h => ?_, fun h => ?_⟩
  · exact h.leading '-' (by decide) (by decide)
  · exact h.leading '+' (by decide) (by decide)

end Notations
end ScalarEval.Numeral
