import Mathlib
import ScalarEval.Ieee.Literal
import ScalarEval.Proofs.Numeral
import ScalarEval.Proofs.Ieee.Literal

/-! Literals read from their notation. Either notation is in the grammar of literals and denotes
the number it was written for, though with other digits where final zeros came or went. -/
namespace ScalarEval.Ieee

open Text

/-- The characters of which numbers are written. -/
def IsNumeralChar (c : Char) : Prop :=
  IsDigitChar c ∨ c ∈ ['.', 'e', '+', '-']

/-- No such character is white space or groups digits, and none starts a word. -/
theorem IsNumeralChar.plain {c : Char} (h : IsNumeralChar c) :
    isWhiteSpace c = false ∧ c ≠ '_' ∧ c.toLower ∉ ['i', 'n'] := by
  rcases h with ⟨d, hd, rfl⟩ | h
  · have hall : ∀ d < 10, isWhiteSpace d.digitChar = false ∧ d.digitChar ≠ '_' ∧
        d.digitChar.toLower ∉ ['i', 'n'] := by decide +kernel
    exact hall d hd
  · simp only [List.mem_cons, List.not_mem_nil, or_false] at h
    rcases h with rfl | rfl | rfl | rfl <;> decide

/-- Such characters, read as a number `n · 10 ^ e`. -/
structure Spells (cs : List Char) (n : ℕ) (e : ℤ) : Prop where
  chars : ∀ c ∈ cs, IsNumeralChar c
  read : readDecimal? cs = some (n, e)

/-- Such characters, read as an exponent part. -/
structure SpellsExponent (cs : List Char) (e : ℤ) : Prop where
  chars : ∀ c ∈ cs, IsNumeralChar c
  read : readExponent? cs = some e

section Parts
variable {whole fraction rest : List Char} {e : ℤ}

theorem spellsExponent_nil : SpellsExponent [] 0 :=
  ⟨by simp, rfl⟩

theorem spellsExponent_signed (e : ℤ) (k : ℕ) :
    SpellsExponent ('e' :: (if e < 0 then '-' else '+') ::
      (List.replicate k '0' ++ Nat.toDigits 10 e.natAbs)) e := by
  have hdigits : ∀ c ∈ List.replicate k '0' ++ Nat.toDigits 10 e.natAbs, IsDigitChar c :=
    List.forall_mem_append.mpr ⟨isDigitChar_zeros k, fun _ => isDigitChar_of_mem_toDigits⟩
  have hne : List.replicate k '0' ++ Nat.toDigits 10 e.natAbs ≠ [] :=
    List.append_ne_nil_of_right_ne_nil _ Nat.toDigits_ne_nil
  have hall : (List.replicate k '0' ++ Nat.toDigits 10 e.natAbs).all isDecimalDigit = true :=
    List.all_eq_true.mpr fun c hc => (hdigits c hc).isDecimalDigit
  have hvalue : ofDigits 10 (List.replicate k '0' ++ Nat.toDigits 10 e.natAbs) = e.natAbs := by
    rw [ofDigits_replicate_append, ofDigits_toDigits (by norm_num) (by norm_num)]
  constructor
  · intro c hc
    simp only [List.mem_cons] at hc
    rcases hc with rfl | rfl | hc
    · exact .inr (by simp)
    · split_ifs <;> exact .inr (by simp)
    · exact .inl (hdigits c hc)
  · by_cases he : e < 0
    · have hnegative : -(e.natAbs : ℤ) = e := by omega
      rw [if_pos he]
      simp only [readExponent?, splitSign, hall, hvalue, hnegative]
      simp [hne]
    · have hpositive : (e.natAbs : ℤ) = e := by omega
      rw [if_neg he]
      simp only [readExponent?, splitSign, hall, hvalue, hpositive]
      simp [hne]

theorem SpellsExponent.head (h : SpellsExponent rest e) :
    rest.takeWhile isDecimalDigit = [] ∧ rest.dropWhile isDecimalDigit = rest ∧
      ∀ r, rest ≠ '.' :: r := by
  cases rest with
  | nil => simp
  | cons c cs =>
    have hc : c = 'e' ∨ c = 'E' := by
      by_contra hc
      have := h.read
      simp [readExponent?, hc] at this
    rcases hc with rfl | rfl
    · exact ⟨rfl, rfl, by simp⟩
    · exact ⟨rfl, rfl, by simp⟩

theorem takeWhile_digits {ds : List Char} (h : ∀ c ∈ ds, IsDigitChar c) (rest : List Char) :
    (ds ++ rest).takeWhile isDecimalDigit = ds ++ rest.takeWhile isDecimalDigit ∧
      (ds ++ rest).dropWhile isDecimalDigit = rest.dropWhile isDecimalDigit := by
  have hds : ∀ c ∈ ds, isDecimalDigit c = true := fun c hc => (h c hc).isDecimalDigit
  exact ⟨List.takeWhile_append_of_pos hds, List.dropWhile_append_of_pos hds⟩

theorem spells_whole (hwhole : ∀ c ∈ whole, IsDigitChar c) (hne : whole ≠ [])
    (hrest : SpellsExponent rest e) : Spells (whole ++ rest) (ofDigits 10 whole) e := by
  obtain ⟨htake, hdrop, hpoint⟩ := hrest.head
  obtain ⟨hwholeTake, hwholeDrop⟩ := takeWhile_digits hwhole rest
  constructor
  · intro c hc
    rcases List.mem_append.mp hc with hc | hc
    · exact .inl (hwhole c hc)
    · exact hrest.chars c hc
  · unfold readDecimal?
    simp only [hwholeTake, hwholeDrop, htake, hdrop, List.append_nil]
    simp [hne, hrest.read]

theorem spells_point (hwhole : ∀ c ∈ whole, IsDigitChar c) (hne : whole ≠ [])
    (hfraction : ∀ c ∈ fraction, IsDigitChar c) (hrest : SpellsExponent rest e) :
    Spells (whole ++ '.' :: (fraction ++ rest)) (ofDigits 10 (whole ++ fraction))
      (e - fraction.length) := by
  obtain ⟨htake, hdrop, -⟩ := hrest.head
  obtain ⟨hwholeTake, hwholeDrop⟩ := takeWhile_digits hwhole ('.' :: (fraction ++ rest))
  obtain ⟨hfractionTake, hfractionDrop⟩ := takeWhile_digits hfraction rest
  have hpointTake : ('.' :: (fraction ++ rest)).takeWhile isDecimalDigit = [] := rfl
  have hpointDrop : ('.' :: (fraction ++ rest)).dropWhile isDecimalDigit =
    '.' :: (fraction ++ rest) := rfl
  constructor
  · intro c hc
    simp only [List.mem_append, List.mem_cons] at hc
    rcases hc with hc | rfl | hc | hc
    · exact .inl (hwhole c hc)
    · exact .inr (by simp)
    · exact .inl (hfraction c hc)
    · exact hrest.chars c hc
  · unfold readDecimal?
    simp only [hwholeTake, hwholeDrop, hpointTake, hpointDrop, hfractionTake, hfractionDrop,
      htake, hdrop, List.append_nil]
    simp [hne, hrest.read]

end Parts

namespace Literal
variable {ds : List Char}

/-- Characters that spell some digits and exponent for a number. -/
def Denotes (cs : List Char) (q : ℚ) : Prop :=
  ∃ n e, Spells cs n e ∧ scaled n e = q

theorem denotes_point {whole fraction : List Char} (hwhole : ∀ c ∈ whole, IsDigitChar c)
    (hne : whole ≠ []) (hfraction : ∀ c ∈ fraction, IsDigitChar c) :
    Denotes (whole ++ '.' :: fraction)
      (scaled (ofDigits 10 (whole ++ fraction)) (0 - fraction.length)) := by
  have hspells := spells_point hwhole hne hfraction spellsExponent_nil
  rw [List.append_nil] at hspells
  exact ⟨_, _, hspells, rfl⟩

theorem isDigitChar_take (hds : ∀ c ∈ ds, IsDigitChar c) (k : ℕ) :
    ∀ c ∈ ds.take k, IsDigitChar c := fun c hc => hds c (List.mem_of_mem_take hc)

theorem isDigitChar_drop (hds : ∀ c ∈ ds, IsDigitChar c) (k : ℕ) :
    ∀ c ∈ ds.drop k, IsDigitChar c := fun c hc => hds c (List.mem_of_mem_drop hc)

theorem denotes_before (hds : ∀ c ∈ ds, IsDigitChar c) (k : ℕ) :
    Denotes ('0' :: '.' :: (List.replicate k '0' ++ ds))
      (scaled (ofDigits 10 ds) (-k - ds.length)) := by
  have hfraction : ∀ c ∈ List.replicate k '0' ++ ds, IsDigitChar c :=
    List.forall_mem_append.mpr ⟨isDigitChar_zeros k, hds⟩
  have h := denotes_point (isDigitChar_zeros 1) (by simp) hfraction
  have hexponent : (0 - (k + ds.length : ℕ) : ℤ) = -k - ds.length := by omega
  rwa [ofDigits_replicate_append, ofDigits_replicate_append, List.length_append,
    List.length_replicate, hexponent] at h

theorem denotes_behind (hds : ∀ c ∈ ds, IsDigitChar c) (hne : ds ≠ []) (k : ℕ) :
    Denotes (ds ++ List.replicate k '0' ++ ['.', '0']) (scaled (ofDigits 10 ds) k) := by
  have hwhole : ∀ c ∈ ds ++ List.replicate k '0', IsDigitChar c :=
    List.forall_mem_append.mpr ⟨hds, isDigitChar_zeros k⟩
  have h := denotes_point hwhole (by simp [hne]) (isDigitChar_zeros 1)
  have hexponent : (0 - (1 : ℕ) + (1 : ℕ) + k : ℤ) = k := by omega
  rwa [ofDigits_append_replicate, ofDigits_append_replicate, scaled_mul_pow, scaled_mul_pow,
    List.length_replicate, hexponent] at h

theorem denotes_between (hds : ∀ c ∈ ds, IsDigitChar c) {p : ℕ} (hp : p ≠ 0)
    (hlength : p ≤ ds.length) (hne : ds ≠ []) :
    Denotes (ds.take p ++ '.' :: ds.drop p) (scaled (ofDigits 10 ds) (p - ds.length)) := by
  have hwhole : ds.take p ≠ [] := by simp [hp, hne]
  have h := denotes_point (isDigitChar_take hds p) hwhole (isDigitChar_drop hds p)
  have hexponent : (0 - (ds.length - p : ℕ) : ℤ) = p - ds.length := by omega
  rwa [List.take_append_drop, List.length_drop, hexponent] at h

/-- The point stands before the digits, behind them or between two of them. -/
theorem denotes_positional (hds : ∀ c ∈ ds, IsDigitChar c) (hne : ds ≠ []) (point : ℤ) :
    Denotes (positional ds point) (scaled (ofDigits 10 ds) (point - ds.length)) := by
  unfold positional
  dsimp only
  by_cases hpoint : point ≤ 0
  · have h := denotes_before hds point.natAbs
    have hplace : -(point.natAbs : ℤ) = point := by omega
    rw [if_pos hpoint]
    rwa [hplace] at h
  rw [if_neg hpoint]
  obtain ⟨p, rfl⟩ := Int.eq_ofNat_of_zero_le (by omega : 0 ≤ point)
  rw [Int.toNat_natCast]
  by_cases hbehind : ds.length ≤ p
  · have h := denotes_behind hds hne (p - ds.length)
    rw [List.take_of_length_le hbehind, List.drop_of_length_le hbehind, if_pos rfl]
    rwa [Nat.cast_sub hbehind] at h
  · have hfraction : ds.drop p ≠ [] := by rwa [ne_eq, List.drop_eq_nil_iff]
    have hfull : p - (ds.take p).length = 0 := by
      rw [List.length_take]
      omega
    rw [if_neg hfraction, hfull, List.replicate_zero, List.append_nil]
    exact denotes_between hds (by omega) (by omega) hne

theorem denotes_scientific (hds : ∀ c ∈ ds, IsDigitChar c) (hne : ds ≠ []) (e : ℤ) :
    Denotes (scientific ds e) (scaled (ofDigits 10 ds) (e + 1 - ds.length)) := by
  have hexponent := spellsExponent_signed e (2 - (Nat.toDigits 10 e.natAbs).length)
  unfold scientific
  dsimp only
  by_cases hlength : ds.length ≤ 1
  · have hone : ds.length = 1 := by
      have := List.length_pos_iff.mpr hne
      omega
    rw [if_pos hlength, List.take_of_length_le hlength, List.append_nil]
    refine ⟨_, _, spells_whole hds hne hexponent, congrArg _ ?_⟩
    rw [hone]
    push_cast
    ring
  · have hspells := spells_point (isDigitChar_take hds 1) (by simp [hne])
      (isDigitChar_drop hds 1) hexponent
    rw [List.take_append_drop] at hspells
    rw [if_neg hlength, List.append_assoc]
    refine ⟨_, _, hspells, congrArg _ ?_⟩
    rw [List.length_drop]
    omega

/-- The digits of a number without final zeros. -/
def significant (digits : ℕ) : List Char :=
  ((Nat.toDigits 10 digits).reverse.dropWhile (· = '0')).reverse

theorem exists_toDigits_eq (digits : ℕ) :
    ∃ k, Nat.toDigits 10 digits = significant digits ++ List.replicate k '0' := by
  unfold significant
  generalize Nat.toDigits 10 digits = ds
  refine ⟨(ds.reverse.takeWhile (· = '0')).length, ?_⟩
  have hzeros : ds.reverse.takeWhile (· = '0') =
      List.replicate (ds.reverse.takeWhile (· = '0')).length '0' :=
    List.eq_replicate_length.mpr fun c hc => by simpa using List.mem_takeWhile_imp hc
  have hsplit := List.takeWhile_append_dropWhile (p := (· = '0')) (l := ds.reverse)
  rw [← List.reverse_inj, List.reverse_append, List.reverse_reverse, List.reverse_replicate,
    ← hzeros]
  exact hsplit.symm

/-- They stand for the number under a larger exponent. -/
theorem scaled_significant {digits : ℕ} (hzero : digits ≠ 0) (e : ℤ) :
    (∀ c ∈ significant digits, IsDigitChar c) ∧ significant digits ≠ [] ∧
      scaled (ofDigits 10 (significant digits))
        ((Nat.toDigits 10 digits).length + e - (significant digits).length) = scaled digits e := by
  obtain ⟨k, hk⟩ := exists_toDigits_eq digits
  have hdigits : ofDigits 10 (significant digits) * 10 ^ k = digits := by
    rw [← ofDigits_append_replicate, ← hk, ofDigits_toDigits (by norm_num) (by norm_num)]
  refine ⟨fun c hc => ?_, fun hnil => hzero ?_, ?_⟩
  · apply isDigitChar_of_mem_toDigits (n := digits)
    rw [hk]
    exact List.mem_append_left _ hc
  · simpa [hnil] using hdigits.symm
  · have hexponent : ((Nat.toDigits 10 digits).length + e - (significant digits).length : ℤ) =
        e + k := by
      rw [hk]
      simp
      ring
    rw [hexponent, ← scaled_mul_pow, hdigits]

theorem renderDecimal_of_ne_zero {digits : ℕ} (hzero : digits ≠ 0) (e : ℤ) :
    renderDecimal digits e =
      let point : ℤ := (Nat.toDigits 10 digits).length + e
      if -4 < point ∧ point ≤ 16 then positional (significant digits) point
      else scientific (significant digits) (point - 1) :=
  if_neg hzero

theorem denotes_renderDecimal (digits : ℕ) (exponent : ℤ) :
    Denotes (renderDecimal digits exponent) (scaled digits exponent) := by
  by_cases hzero : digits = 0
  · have h := denotes_point (isDigitChar_zeros 1) (by simp) (isDigitChar_zeros 1)
    have hvalue : scaled digits exponent = scaled 0 (0 - (List.replicate 1 '0').length) := by
      simp [scaled, hzero]
    rw [renderDecimal, if_pos hzero, hvalue]
    exact h
  · obtain ⟨hds, hne, hvalue⟩ := scaled_significant hzero exponent
    rw [renderDecimal_of_ne_zero hzero, ← hvalue]
    dsimp only
    split_ifs
    · exact denotes_positional hds hne _
    · have h := denotes_scientific hds hne ((Nat.toDigits 10 digits).length + exponent - 1)
      rwa [sub_add_cancel] at h

theorem ungroup?_trim {cs : List Char} (h : ∀ c ∈ cs, IsNumeralChar c) :
    ungroup? isDecimalDigit false (trim isWhiteSpace cs) = some cs := by
  rw [trim_eq_self fun c hc => (h c hc).plain.1]
  exact ungroup?_eq_some (fun hm => (h _ hm).plain.2.1 rfl) false

theorem splitSign_of_readDecimal? {cs : List Char} {r : ℕ × ℤ} (h : readDecimal? cs = some r) :
    splitSign cs = (false, cs) := by
  unfold splitSign
  split
  next cs => exact absurd h (by simp [readDecimal?, show isDecimalDigit '-' = false by decide])
  next cs => exact absurd h (by simp [readDecimal?, show isDecimalDigit '+' = false by decide])
  next => rfl

/-- A number is no word, for none of its characters starts one. -/
theorem word_ne {cs : List Char} (h : ∀ c ∈ cs, IsNumeralChar c) {first : Char}
    (hfirst : first ∈ ['i', 'n']) (rest : List Char) :
    String.ofList (cs.map Char.toLower) ≠ String.ofList (first :: rest) := by
  intro heq
  have hmap : cs.map Char.toLower = first :: rest := String.ofList_injective heq
  have hmem : first ∈ cs.map Char.toLower := hmap ▸ List.mem_cons_self
  obtain ⟨c, hc, rfl⟩ := List.mem_map.mp hmem
  exact (h c hc).plain.2.2 hfirst

/-- What is written for a literal that is no NaN is read as a literal of the same number. -/
theorem exists_ofText?_render (l : Literal) (hnan : ∀ s, l ≠ .nan s) :
    ∃ l', ofText? l.render = some l' ∧ Agree l' l := by
  cases l with
  | nan s => exact absurd rfl (hnan s)
  | infinite s => exact ⟨.infinite s, by cases s <;> decide, .infinite s⟩
  | decimal s digits exponent =>
    obtain ⟨n, e, ⟨hchars, hread⟩, hvalue⟩ := denotes_renderDecimal digits exponent
    refine ⟨.decimal s n e, ?_, .decimal s hvalue⟩
    have hsplit : splitSign (render (.decimal s digits exponent)).toList =
        (s, renderDecimal digits exponent) := by
      cases s with
      | true => simp [render, splitSign]
      | false => simpa [render] using splitSign_of_readDecimal? hread
    have htext : ∀ c ∈ (render (.decimal s digits exponent)).toList, IsNumeralChar c := by
      cases s with
      | true => simpa [render] using ⟨.inr (by simp), hchars⟩
      | false => simpa [render] using hchars
    unfold ofText?
    rw [ungroup?_trim htext]
    simp only [Option.bind_eq_bind, Option.bind_some, hsplit, hread]
    rw [if_neg, if_neg]
    · rfl
    · exact word_ne hchars (by simp) ['a', 'n']
    · rintro (h | h)
      · exact word_ne hchars (by simp) ['n', 'f'] h
      · exact word_ne hchars (by simp) ['n', 'f', 'i', 'n', 'i', 't', 'y'] h

end Literal
end ScalarEval.Ieee
