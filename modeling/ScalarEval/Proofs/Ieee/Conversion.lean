import Mathlib
import ScalarEval.Proofs.Ieee.Negation

/-! Conversion between formats is rounding. What is not NaN keeps its sign, and its magnitude goes
to the nearest one of the other format; so conversion keeps the order of what patterns denote, and
commutes with negation. -/
namespace ScalarEval.Ieee
namespace Format
variable {F G : Format} {p q m n : ℕ}

theorem Encloses.le_of_le {x y : ℚ} (h : F.Encloses x m) (h' : F.Encloses y n) (hxy : x ≤ y) :
    m ≤ n := by
  by_contra hgt
  have hlt : n < m := not_le.mp hgt
  have hlow := (h.lower n hlt).1
  have hhigh := (h'.upper n le_rfl (hlt.trans_le h.le_infinity)).1
  -- Both numbers are the midpoint above `n`, so one of them is enclosed twice.
  have heq : x = y := le_antisymm hxy (hhigh.trans hlow)
  exact hlt.ne ((heq ▸ h').unique h)

theorem nearest_le_nearest (hF : F.Regular) {num num' den : ℕ} (hden : 0 < den)
    (h : num ≤ num') : F.nearest num den ≤ F.nearest num' den := by
  have hden' : (0 : ℚ) < den := by exact_mod_cast hden
  have hnum : (num : ℚ) ≤ num' := by exact_mod_cast h
  refine (encloses_nearest hF.fraction num hden).le_of_le
    (encloses_nearest hF.fraction num' hden) ?_
  gcongr

/-- The magnitude to which conversion takes one that is no NaN. -/
def carry (F G : Format) (m : ℕ) : ℕ :=
  if m < F.infinity then G.nearest (F.units m) (2 ^ F.scale) else G.infinity

theorem carry_le_infinity (F G : Format) (m : ℕ) : F.carry G m ≤ G.infinity := by
  unfold carry
  split
  · exact G.nearest_le_infinity _ _
  · exact le_rfl

theorem carry_zero (hF : F.Regular) (G : Format) : F.carry G 0 = 0 := by
  rw [carry, if_pos hF.infinity_pos, units_zero]
  exact nearest_eq_zero (by simp)

theorem carry_monotone (hG : G.Regular) : Monotone (F.carry G) := by
  intro m n hmn
  by_cases hn : n < F.infinity
  · rw [carry, carry, if_pos (hmn.trans_lt hn), if_pos hn]
    exact nearest_le_nearest hG (by positivity) (F.units_strictMono.monotone hmn)
  · have htop : F.carry G n = G.infinity := if_neg hn
    rw [htop]
    exact F.carry_le_infinity G m

theorem carry_self (h : m ≤ F.infinity) : F.carry F m = m := by
  unfold carry
  split
  next => exact nearest_units h
  next hm => exact le_antisymm (not_lt.mp hm) h

theorem isNaN_mod (F : Format) (p : ℕ) : F.isNaN (p % (2 * F.signBit)) = F.isNaN p := by
  rw [isNaN, isNaN, magnitude_mod]

/-- What is not NaN is converted by its fields. -/
theorem convert_eq_pattern (G : Format) (h : F.isNaN p = false) :
    F.convert G p = G.pattern (F.isNegative p) (F.carry G (F.magnitude p)) := by
  have hle : F.magnitude p ≤ F.infinity := not_lt.mp (of_decide_eq_false h)
  unfold convert
  rcases hle.lt_or_eq with hlt | heq
  · simp only [decode_finite hlt, carry, if_pos hlt]
    rfl
  · have hnot : ¬ F.magnitude p < F.infinity := heq.not_lt
    simp only [decode_infinite heq, carry, if_neg hnot]

theorem carry_lt_signBit (F G : Format) (m : ℕ) : F.carry G m < G.signBit :=
  (F.carry_le_infinity G m).trans_lt G.infinity_lt_signBit

theorem magnitude_convert (G : Format) (h : F.isNaN p = false) :
    G.magnitude (F.convert G p) = F.carry G (F.magnitude p) := by
  rw [convert_eq_pattern G h, magnitude_pattern (F.carry_lt_signBit G _)]

/-- Conversion of a format to itself only drops the bits above the sign. -/
theorem convert_self (h : F.isNaN p = false) : F.convert F p = p % (2 * F.signBit) := by
  have hle : F.magnitude p ≤ F.infinity := not_lt.mp (of_decide_eq_false h)
  rw [convert_eq_pattern F h, carry_self hle, pattern_fields]

/-- Conversion rounds the number that a pattern denotes. -/
theorem convert_correctlyRounded (hF : F.Regular) (hG : G.Regular) {x : ℚ} (h : F.HasValue p x) :
    G.CorrectlyRounded x (F.isNegative p) (F.convert G p) := by
  obtain ⟨hfinite, rfl⟩ := hasValue_iff.mp h
  have hx : F.rational p =
      Datum.signed (F.isNegative p) (F.units (F.magnitude p)) / (2 ^ F.scale : ℕ) := by
    rw [rational_eq hF]
    push_cast
    rfl
  unfold convert
  rw [decode_finite hfinite, hx]
  exact ofRatio_correctlyRounded hG (by positivity) fun _ => rfl

theorem isInfinite_convert_iff (hF : F.Regular) (hG : G.Regular) (h : F.isNaN p = false) :
    G.IsInfinite (F.convert G p) ↔
      F.IsInfinite p ∨ ∃ x, F.HasValue p x ∧ G.overflowBound ≤ |x| := by
  have hle : F.magnitude p ≤ F.infinity := not_lt.mp (of_decide_eq_false h)
  rcases hle.lt_or_eq with hlt | heq
  · have hvalue : F.HasValue p (F.rational p) := hasValue_iff.mpr ⟨hlt, rfl⟩
    have hround := (convert_correctlyRounded hF hG hvalue).magnitude.eq_infinity_iff
    rw [isInfinite_iff, isInfinite_iff, hround, or_iff_right hlt.ne]
    constructor
    · exact fun hbound => ⟨_, hvalue, hbound⟩
    · rintro ⟨x, hx, hbound⟩
      obtain ⟨-, rfl⟩ := hasValue_iff.mp hx
      exact hbound
  · have hinfinite : F.IsInfinite p := isInfinite_iff.mpr heq
    exact iff_of_true (isInfinite_convert G hinfinite) (.inl hinfinite)

theorem convert_neg (G : Format) (h : F.isNaN p = false) :
    F.convert G (F.neg p) = G.neg (F.convert G p) := by
  have h' : F.isNaN (F.neg p) = false := (F.isNaN_neg p).trans h
  rw [convert_eq_pattern G h', convert_eq_pattern G h, isNegative_neg, magnitude_neg,
    neg_pattern (F.carry_lt_signBit G _)]

section Order
variable {x y : Extended}

theorem isNaN_of_denoted? (hF : F.Regular) (h : F.denoted? p = some x) : F.isNaN p = false :=
  (denoted?_ne_none_iff hF).mp (by simp [h])

theorem exists_denoted? (hF : F.Regular) (h : F.isNaN p = false) : ∃ x, F.denoted? p = some x :=
  Option.ne_none_iff_exists'.mp ((denoted?_ne_none_iff hF).mpr h)

/-- The numbers and infinities denoted have the order of the keys. -/
theorem le_iff_key_le (hF : F.Regular) (hp : F.denoted? p = some x) (hq : F.denoted? q = some y) :
    x ≤ y ↔ F.key p ≤ F.key q := by
  have hp' := isNaN_of_denoted? hF hp
  have hq' := isNaN_of_denoted? hF hq
  have hcompare := (compare?_eq_denoted hF p q).symm.trans (compare?_eq_key hF hp' hq')
  rw [hp, hq, Option.map₂_some_some] at hcompare
  rw [← compare_le_iff_le, Option.some.inj hcompare, compare_le_iff_le]

/-- A monotone map of magnitudes that keeps zero is monotone on magnitudes under signs. -/
theorem signed_le_signed {f : ℕ → ℕ} (hf : Monotone f) (h0 : f 0 = 0) {s t : Bool}
    (h : Datum.signed s m ≤ Datum.signed t n) : Datum.signed s (f m) ≤ Datum.signed t (f n) := by
  unfold Datum.signed at h ⊢
  cases s with
  | false =>
    cases t with
    | false =>
      have := hf (show m ≤ n by simpa using h)
      simpa using this
    | true =>
      obtain ⟨rfl, rfl⟩ : m = 0 ∧ n = 0 := by
        simp at h
        omega
      simp [h0]
  | true =>
    cases t with
    | false => simp
    | true =>
      have := hf (show n ≤ m by simpa using h)
      simpa using this

theorem key_convert (hG : G.Regular) (h : F.isNaN p = false) :
    G.key (F.convert G p) = Datum.signed (F.isNegative p) (F.carry G (F.magnitude p)) := by
  rw [key, isNegative_convert hG, magnitude_convert G h]

/-- Conversion keeps the order. Different numbers may be rounded to one. -/
theorem denoted?_convert_le (hF : F.Regular) (hG : G.Regular) (hp : F.denoted? p = some x)
    (hq : F.denoted? q = some y) (hxy : x ≤ y) :
    ∃ x' y', G.denoted? (F.convert G p) = some x' ∧ G.denoted? (F.convert G q) = some y' ∧
      x' ≤ y' := by
  have hp' := isNaN_of_denoted? hF hp
  have hq' := isNaN_of_denoted? hF hq
  obtain ⟨x', hx'⟩ := exists_denoted? hG ((isNaN_convert hG p).trans hp')
  obtain ⟨y', hy'⟩ := exists_denoted? hG ((isNaN_convert hG q).trans hq')
  refine ⟨x', y', hx', hy', (le_iff_key_le hG hx' hy').mpr ?_⟩
  rw [key_convert hG hp', key_convert hG hq']
  exact signed_le_signed (carry_monotone hG) (carry_zero hF G)
    ((le_iff_key_le hF hp hq).mp hxy)

end Order

end Format
end ScalarEval.Ieee
