import Mathlib
import ScalarEval.Text.Blank
import ScalarEval.Text.Grouping
import ScalarEval.Text.Radix

/-! Digits, as they are written and as they are read. A written digit has the value it was
written for, and what stands between numerals or around them is no digit. -/
namespace ScalarEval.Text

section Trim
variable {drop : Char → Bool} {before cs after : List Char}

theorem dropWhile_eq_self (h : ∀ c ∈ cs, drop c = false) : cs.dropWhile drop = cs := by
  cases cs with
  | nil => rfl
  | cons c cs => exact List.dropWhile_cons_of_neg (by simp [h c])

/-- What may stand around a text goes, and the text stays. -/
theorem trim_surrounded (hbefore : ∀ c ∈ before, drop c = true)
    (hafter : ∀ c ∈ after, drop c = true) (h : ∀ c ∈ cs, drop c = false) :
    trim drop (before ++ cs ++ after) = cs := by
  have hreverse : ∀ c ∈ cs.reverse, drop c = false := fun c hc => h c (List.mem_reverse.mp hc)
  have hafter' : ∀ c ∈ after.reverse, drop c = true := fun c hc => hafter c (List.mem_reverse.mp hc)
  unfold trim
  rw [List.append_assoc, List.dropWhile_append_of_pos hbefore]
  cases cs with
  | nil => simp [List.dropWhile_eq_nil_iff.mpr hafter]
  | cons c cs =>
    have hfirst : (c :: cs ++ after).dropWhile drop = c :: cs ++ after :=
      List.dropWhile_cons_of_neg (by simp [h c])
    rw [hfirst, List.reverse_append, List.dropWhile_append_of_pos hafter',
      dropWhile_eq_self hreverse, List.reverse_reverse]

theorem trim_eq_self (h : ∀ c ∈ cs, drop c = false) : trim drop cs = cs := by
  have hnone : ∀ c ∈ ([] : List Char), drop c = true := fun _ hc => absurd hc List.not_mem_nil
  simpa using trim_surrounded hnone hnone h

/-- Only characters of the class are taken off the end. -/
theorem exists_dropWhile_eq_trim (drop : Char → Bool) (cs : List Char) :
    ∃ after, cs.dropWhile drop = trim drop cs ++ after ∧ ∀ c ∈ after, drop c = true := by
  refine ⟨((cs.dropWhile drop).reverse.takeWhile drop).reverse, ?_, fun c hc => ?_⟩
  · unfold trim
    rw [← List.reverse_append, List.takeWhile_append_dropWhile, List.reverse_reverse]
  · exact List.mem_takeWhile_imp (List.mem_reverse.mp hc)

theorem mem_trim_of_mem {c : Char} (h : c ∈ cs) (hc : drop c = false) : c ∈ trim drop cs := by
  obtain ⟨after, hdrop, hafter⟩ := exists_dropWhile_eq_trim drop cs
  rw [← List.takeWhile_append_dropWhile (p := drop) (l := cs), hdrop] at h
  have hkept : ∀ d, drop d = true → c ≠ d := by
    rintro d hd rfl
    rw [hc] at hd
    cases hd
  rcases List.mem_append.mp h with h | h
  · exact absurd rfl (hkept c (List.mem_takeWhile_imp h))
  · rcases List.mem_append.mp h with h | h
    · exact h
    · exact absurd rfl (hkept c (hafter c h))

/-- Nothing of the class, nor of a smaller one, is left in front. -/
theorem dropWhile_trim {drop' : Char → Bool} (h : ∀ c, drop' c = true → drop c = true) :
    (trim drop cs).dropWhile drop' = trim drop cs := by
  obtain ⟨after, hdrop, -⟩ := exists_dropWhile_eq_trim drop cs
  have hhead := List.head?_dropWhile_not drop cs
  rw [hdrop] at hhead
  cases htrim : trim drop cs with
  | nil => rfl
  | cons c rest =>
    rw [htrim] at hhead
    have hc : drop c = false := hhead
    apply List.dropWhile_cons_of_neg
    intro hc'
    exact Bool.false_ne_true (hc.symm.trans (h c hc'))

end Trim

theorem isBlank_of_isWhiteSpace {c : Char} (h : isWhiteSpace c = true) : isBlank c = true :=
  Bool.or_eq_true_iff.mpr (.inl h)

theorem ungroup?_eq_some {isDigit : Char → Bool} {cs : List Char} (h : '_' ∉ cs)
    (afterDigit : Bool) : ungroup? isDigit afterDigit cs = some cs := by
  induction cs generalizing afterDigit with
  | nil => rfl
  | cons c cs ih =>
    have hc : c ≠ '_' := fun he => h (he ▸ List.mem_cons_self)
    have hcs : '_' ∉ cs := fun hm => h (List.mem_cons_of_mem c hm)
    rw [ungroup?, if_neg hc, ih hcs]
    rfl

/-- What is left without underscores was there before. -/
theorem mem_of_ungroup? {isDigit : Char → Bool} {afterDigit : Bool} {cs ds : List Char} {c : Char}
    (h : ungroup? isDigit afterDigit cs = some ds) (hc : c ∈ ds) : c ∈ cs ∧ c ≠ '_' := by
  induction cs generalizing afterDigit ds with
  | nil =>
    obtain rfl := Option.some.inj h
    cases hc
  | cons d cs ih =>
    rw [ungroup?] at h
    split_ifs at h with hd
    · obtain ⟨hmem, hne⟩ := ih h hc
      exact ⟨List.mem_cons_of_mem d hmem, hne⟩
    · obtain ⟨ds', hds', rfl⟩ := Option.map_eq_some_iff.mp h
      rcases List.mem_cons.mp hc with rfl | hc
      · exact ⟨List.mem_cons_self, hd⟩
      · obtain ⟨hmem, hne⟩ := ih hds' hc
        exact ⟨List.mem_cons_of_mem d hmem, hne⟩

section Written

theorem digitValue?_digitChar : ∀ d < 16, digitValue? d.digitChar = some d := by
  decide

theorem isDecimalDigit_digitChar : ∀ d < 10, isDecimalDigit d.digitChar = true := by
  decide

theorem exists_digitChar_of_mem_toDigits {b n : ℕ} {c : Char} (hb : 1 < b)
    (h : c ∈ b.toDigits n) : ∃ d < b, c = d.digitChar := by
  induction n using Nat.strongRecOn with
  | ind n ih =>
    rw [Nat.toDigits_eq_if hb] at h
    split at h
    next hn => exact ⟨n, hn, List.mem_singleton.mp h⟩
    next hn =>
      have hlt : n / b < n := Nat.div_lt_self (by omega) hb
      rcases List.mem_append.mp h with h | h
      · exact ih _ hlt h
      · exact ⟨n % b, Nat.mod_lt _ (by omega), List.mem_singleton.mp h⟩

/-- A digit as it is written in decimal. -/
def IsDigitChar (c : Char) : Prop :=
  ∃ d < 10, c = d.digitChar

theorem isDigitChar_zeros (k : ℕ) : ∀ c ∈ List.replicate k '0', IsDigitChar c := by
  intro c hc
  rw [List.eq_of_mem_replicate hc]
  exact ⟨0, by norm_num, rfl⟩

theorem isDigitChar_of_mem_toDigits {n : ℕ} {c : Char} (h : c ∈ Nat.toDigits 10 n) :
    IsDigitChar c :=
  exists_digitChar_of_mem_toDigits (by norm_num) h

theorem IsDigitChar.isDecimalDigit {c : Char} (h : IsDigitChar c) : isDecimalDigit c = true := by
  obtain ⟨d, hd, rfl⟩ := h
  exact isDecimalDigit_digitChar d hd

theorem isDecimalDigit_of_mem_toDigits {n : ℕ} {c : Char} (h : c ∈ Nat.toDigits 10 n) :
    isDecimalDigit c = true :=
  (isDigitChar_of_mem_toDigits h).isDecimalDigit

end Written

section Values
variable {b : ℕ}

theorem ofDigits_append (b : ℕ) (xs ys : List Char) :
    ofDigits b (xs ++ ys) = ofDigits b xs * b ^ ys.length + ofDigits b ys := by
  induction ys using List.reverseRecOn with
  | nil => simp [ofDigits]
  | append_singleton ys y ih =>
    have hsnoc : ∀ zs : List Char, ofDigits b (zs ++ [y]) =
        b * ofDigits b zs + (digitValue? y).getD 0 := by
      intro zs
      simp [ofDigits]
    rw [← List.append_assoc, hsnoc, hsnoc, ih, List.length_append, List.length_singleton]
    ring

@[simp] theorem ofDigits_nil (b : ℕ) : ofDigits b [] = 0 := rfl

theorem ofDigits_digitChar (b : ℕ) {d : ℕ} (hd : d < 16) : ofDigits b [d.digitChar] = d := by
  simp [ofDigits, digitValue?_digitChar d hd]

theorem ofDigits_replicate_zero (b k : ℕ) : ofDigits b (List.replicate k '0') = 0 := by
  induction k with
  | zero => rfl
  | succ k ih =>
    have hzero : ofDigits b ['0'] = 0 := ofDigits_digitChar b (d := 0) (by norm_num)
    rw [List.replicate_succ', ofDigits_append, ih, hzero, zero_mul]

theorem ofDigits_lt_pow {cs : List Char} (h : ∀ c ∈ cs, (digitValue? c).getD 0 < b) :
    ofDigits b cs < b ^ cs.length := by
  induction cs using List.reverseRecOn with
  | nil => simp
  | append_singleton cs c ih =>
    have hcs := ih fun d hd => h d (List.mem_append_left _ hd)
    have hc : ofDigits b [c] < b := by simpa [ofDigits] using h c (by simp)
    rw [ofDigits_append, List.length_append, List.length_singleton, pow_one, pow_succ]
    calc ofDigits b cs * b + ofDigits b [c] < ofDigits b cs * b + b := by omega
      _ = (ofDigits b cs + 1) * b := by ring
      _ ≤ b ^ cs.length * b := Nat.mul_le_mul_right b hcs

/-- Zeros in front of digits do not count, and those behind them multiply. -/
theorem ofDigits_replicate_append (b k : ℕ) (cs : List Char) :
    ofDigits b (List.replicate k '0' ++ cs) = ofDigits b cs := by
  rw [ofDigits_append, ofDigits_replicate_zero, zero_mul, zero_add]

theorem ofDigits_append_replicate (b k : ℕ) (cs : List Char) :
    ofDigits b (cs ++ List.replicate k '0') = ofDigits b cs * b ^ k := by
  rw [ofDigits_append, ofDigits_replicate_zero, List.length_replicate, add_zero]

/-- Reading digits undoes writing them. -/
theorem ofDigits_toDigits (hb : 1 < b) (hb' : b ≤ 16) (n : ℕ) :
    ofDigits b (b.toDigits n) = n := by
  induction n using Nat.strongRecOn with
  | ind n ih =>
    rw [Nat.toDigits_eq_if hb]
    split
    next hn => exact ofDigits_digitChar b (by omega)
    next hn =>
      have hlt : n / b < n := Nat.div_lt_self (by omega) hb
      have hd : n % b < b := Nat.mod_lt _ (by omega)
      rw [ofDigits_append, ih _ hlt, ofDigits_digitChar b (by omega), List.length_singleton,
        pow_one]
      exact Nat.div_add_mod' n b

/-- A letter has the same value in either case. -/
theorem digitValue?_toLower (c : Char) : digitValue? c.toLower = digitValue? c := by
  by_cases h : 'A' ≤ c ∧ c ≤ 'Z'
  · have hall : ∀ n ∈ List.range' 65 26,
        digitValue? (Char.ofNat n).toLower = digitValue? (Char.ofNat n) := by decide
    have hlo : 65 ≤ c.toNat := h.1
    have hhi : c.toNat ≤ 90 := h.2
    have hc := hall c.toNat (List.mem_range'_1.mpr (by omega))
    rwa [Char.ofNat_toNat] at hc
  · have hself : c.toLower = c := dif_neg h
    rw [hself]

theorem ofDigits_map_toLower (cs : List Char) :
    ofDigits b (cs.map Char.toLower) = ofDigits b cs := by
  simp only [ofDigits, List.foldl_map, digitValue?_toLower]

end Values

section Separators

/-- White space, information separators, and what marks signs, groups, offsets and fractions. -/
def IsSeparator (c : Char) : Prop :=
  isBlank c = true ∨ c ∈ ['+', '-', '_', ':', '.']

theorem digitValue?_eq_none {c : Char} (h : IsSeparator c) : digitValue? c = none := by
  have hall : ∀ n ∈ whiteSpace ++ [0x1c, 0x1d, 0x1e, 0x1f, 0x2b, 0x2d, 0x5f, 0x3a, 0x2e],
      digitValue? (Char.ofNat n) = none := by decide
  have hc := hall c.toNat
  rw [Char.ofNat_toNat] at hc
  apply hc
  rcases h with h | h
  · rcases Bool.or_eq_true_iff.mp h with h | h
    · exact List.mem_append_left _ (List.contains_iff_mem.mp h)
    · have hrange : 0x1c ≤ c.toNat ∧ c.toNat ≤ 0x1f := by simpa using h
      apply List.mem_append_right
      simp only [List.mem_cons]
      omega
  · apply List.mem_append_right
    simp only [List.mem_cons, List.not_mem_nil, or_false] at h
    rcases h with rfl | rfl | rfl | rfl | rfl <;> decide

theorem not_isSeparator {c : Char} (h : (digitValue? c).isSome = true) : ¬ IsSeparator c := by
  intro hs
  rw [digitValue?_eq_none hs] at h
  cases h

theorem isSome_of_isDecimalDigit {c : Char} (h : isDecimalDigit c = true) :
    (digitValue? c).isSome = true := by
  unfold digitValue?
  split_ifs
  · rfl
  · rfl
  · exact h

theorem not_isSeparator_of_mem_toDigits {n : ℕ} {c : Char} (h : c ∈ Nat.toDigits 10 n) :
    ¬ IsSeparator c :=
  not_isSeparator (isSome_of_isDecimalDigit (isDecimalDigit_of_mem_toDigits h))

theorem not_isSeparator_of_mem_hex {n : ℕ} {c : Char} (h : c ∈ '0' :: 'x' :: hexDigits n) :
    ¬ IsSeparator c := by
  rcases List.mem_cons.mp h with rfl | h
  · exact not_isSeparator (by decide)
  · rcases List.mem_cons.mp h with rfl | h
    · exact not_isSeparator (by decide)
    · obtain ⟨d, hd, rfl⟩ := exists_digitChar_of_mem_toDigits (by norm_num) h
      exact not_isSeparator (by rw [digitValue?_digitChar d hd]; rfl)

/-- A minus is the only separator that a sign may add. -/
theorem not_isSeparator_of_mem_withSign {n : ℤ} {magnitude : ℕ → List Char} {c : Char}
    (hsep : ∀ c ∈ magnitude n.natAbs, ¬ IsSeparator c) (hc : c ≠ '-')
    (h : c ∈ (withSign n magnitude).toList) : ¬ IsSeparator c := by
  unfold withSign at h
  rw [String.toList_ofList] at h
  split at h
  · rcases List.mem_cons.mp h with h | h
    · exact absurd h hc
    · exact hsep c h
  · exact hsep c h

end Separators
end ScalarEval.Text
