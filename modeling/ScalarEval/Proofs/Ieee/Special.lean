import Mathlib
import ScalarEval.Proofs.Ieee.Denotation

/-! Results that are NaN, infinite or zero. Operations are invalid on few operands, told here by what
their patterns denote, and conversion keeps NaNs, infinities, zeros and all signs. -/
namespace ScalarEval.Ieee
namespace Format
variable {F G : Format} {p q m : ℕ} {s : Bool}

/-- The pattern is that of a number. -/
def HasValue (F : Format) (p : ℕ) (x : ℚ) : Prop :=
  F.denoted? p = some ((x : WithTop ℚ) : Extended)

def IsInfinite (F : Format) (p : ℕ) : Prop :=
  F.denoted? p = some ⊥ ∨ F.denoted? p = some ⊤

theorem hasValue_iff {x : ℚ} :
    F.HasValue p x ↔ F.magnitude p < F.infinity ∧ F.rational p = x := by
  unfold HasValue denoted?
  rw [magnitude_lt_infinity_iff]
  split_ifs with hfinite <;> simp [hfinite]

theorem isInfinite_iff : F.IsInfinite p ↔ F.magnitude p = F.infinity := by
  unfold IsInfinite denoted?
  by_cases hfinite : F.magnitude p < F.infinity
  · rw [if_pos (magnitude_lt_infinity_iff.mp hfinite)]
    simp [hfinite.ne]
  · have hsum := magnitude_eq_infinity_add hfinite
    have hiff : F.magnitude p = F.infinity ↔ F.magnitude p % 2 ^ F.fractionBits = 0 := by omega
    rw [if_neg (magnitude_lt_infinity_iff.not.mp hfinite), hiff]
    by_cases hfraction : F.magnitude p % 2 ^ F.fractionBits = 0
    · rw [if_neg (not_not.mpr hfraction)]
      cases F.isNegative p <;> simp [hfraction]
    · simp [hfraction]

theorem isNaN_eq_false_iff : F.isNaN p = false ↔ F.decode p ≠ .nan := by
  rw [← Bool.not_eq_true, ne_eq, decode_eq_nan_iff]

theorem decode_eq_infinite_iff :
    F.decode p = .infinite s ↔ F.IsInfinite p ∧ F.isNegative p = s := by
  rw [isInfinite_iff]
  unfold decode
  dsimp only
  split_ifs with hnan hinfinite
  · simp [hnan.ne']
  · simp [hinfinite]
  · simp [hinfinite]

theorem decode_eq_finite_iff {u : ℕ} : F.decode p = .finite s u ↔
    F.magnitude p < F.infinity ∧ F.isNegative p = s ∧ F.units (F.magnitude p) = u := by
  unfold decode
  dsimp only
  split_ifs with hnan hinfinite
  · simp [hnan.not_gt]
  · simp [hinfinite]
  · have hfinite : F.magnitude p < F.infinity := by omega
    simp [hfinite]

theorem decode_eq_zero_iff (hF : F.Regular) :
    F.decode p = .finite s 0 ↔ F.HasValue p 0 ∧ F.isNegative p = s := by
  have hzero : F.rational p = 0 ↔ F.units (F.magnitude p) = 0 :=
    not_iff_not.mp (rational_ne_zero_iff hF)
  rw [decode_eq_finite_iff, hasValue_iff, hzero, and_assoc, and_comm (a := F.isNegative p = s)]

theorem isNaN_pattern_of_le (h : m ≤ F.infinity) : F.isNaN (F.pattern s m) = false := by
  rw [isNaN_pattern (h.trans_lt F.infinity_lt_signBit)]
  exact decide_eq_false (not_lt.mpr h)

theorem isInfinite_pattern (F : Format) (s : Bool) : F.IsInfinite (F.pattern s F.infinity) := by
  rw [isInfinite_iff, magnitude_pattern F.infinity_lt_signBit]

theorem hasValue_pattern_zero (hF : F.Regular) (s : Bool) : F.HasValue (F.pattern s 0) 0 := by
  have hdecode : F.decode (F.pattern s 0) = .finite s (F.units 0) :=
    decode_pattern_finite hF.infinity_pos
  rw [units_zero] at hdecode
  exact ((decode_eq_zero_iff hF).mp hdecode).1

theorem isNaN_ofRatio (F : Format) (s : Bool) (num den : ℕ) :
    F.isNaN (F.ofRatio s num den) = false :=
  isNaN_pattern_of_le (F.nearest_le_infinity num den)

theorem quietNaN_lt_signBit (hF : F.Regular) : F.quietNaN < F.signBit :=
  quietNaN_add_lt hF.fraction (quietBit_pos F)

theorem isNaN_quietNaN (hF : F.Regular) : F.isNaN F.quietNaN = true := by
  have hpattern : F.quietNaN = F.pattern false F.quietNaN := by simp [pattern]
  rw [hpattern, isNaN_pattern (quietNaN_lt_signBit hF)]
  exact decide_eq_true (Nat.lt_add_of_pos_right (quietBit_pos F))

theorem pattern_lt_of_le (h : m ≤ F.infinity) : F.pattern s m < 2 * F.signBit :=
  pattern_lt (h.trans_lt F.infinity_lt_signBit)

section Width
variable (hF : F.Regular) (x y : Datum)
include hF

theorem quietNaN_lt : F.quietNaN < 2 * F.signBit := by
  have hlt := quietNaN_lt_signBit hF
  omega

/-- No operation sets a bit above the sign. -/
theorem addData_lt : F.addData x y < 2 * F.signBit := by
  have hnan := quietNaN_lt hF
  unfold addData
  split
  · exact hnan
  · exact hnan
  · split_ifs
    · exact pattern_lt_of_le le_rfl
    · exact hnan
  · exact pattern_lt_of_le le_rfl
  · exact pattern_lt_of_le le_rfl
  · dsimp only
    split_ifs
    · exact pattern_lt_of_le (Nat.zero_le _)
    · exact F.ofRatio_lt _ _ _

theorem mulData_lt : F.mulData x y < 2 * F.signBit := by
  have hnan := quietNaN_lt hF
  unfold mulData
  split
  · exact hnan
  · exact hnan
  · exact pattern_lt_of_le le_rfl
  · split_ifs
    · exact hnan
    · exact pattern_lt_of_le le_rfl
  · split_ifs
    · exact hnan
    · exact pattern_lt_of_le le_rfl
  · exact F.ofRatio_lt _ _ _

theorem divData_lt : F.divData x y < 2 * F.signBit := by
  have hnan := quietNaN_lt hF
  unfold divData
  split
  · exact hnan
  · exact hnan
  · exact hnan
  · exact pattern_lt_of_le le_rfl
  · exact pattern_lt_of_le (Nat.zero_le _)
  · split_ifs
    · exact hnan
    · exact pattern_lt_of_le le_rfl
    · exact F.ofRatio_lt _ _ _

theorem remData_lt : F.remData x y < 2 * F.signBit := by
  have hnan := quietNaN_lt hF
  unfold remData
  split
  · exact hnan
  · exact hnan
  · exact hnan
  · exact F.ofRatio_lt _ _ _
  · split_ifs
    · exact hnan
    · exact F.ofRatio_lt _ _ _

end Width

section Invalid
variable (hF : F.Regular) (x y : Datum)
include hF

theorem isNaN_addData : F.isNaN (F.addData x y) = true ↔
    x = .nan ∨ y = .nan ∨ ∃ s, x = .infinite s ∧ y = .infinite !s := by
  have hnan := isNaN_quietNaN hF
  cases x with
  | nan => cases y <;> simp [addData, hnan]
  | infinite s =>
    cases y with
    | nan => simp [addData, hnan]
    | infinite t => cases s <;> cases t <;> simp [addData, hnan, isNaN_pattern_of_le]
    | finite t n => simp [addData, isNaN_pattern_of_le]
  | finite s m =>
    cases y with
    | nan => simp [addData, hnan]
    | infinite t => simp [addData, isNaN_pattern_of_le]
    | finite t n => simp [addData_finite, isNaN_ofRatio]

theorem isNaN_mulData : F.isNaN (F.mulData x y) = true ↔
    x = .nan ∨ y = .nan ∨ (∃ s t, x = .finite s 0 ∧ y = .infinite t) ∨
      ∃ s t, x = .infinite s ∧ y = .finite t 0 := by
  have hnan := isNaN_quietNaN hF
  cases x with
  | nan => cases y <;> simp [mulData, hnan]
  | infinite s =>
    cases y with
    | nan => simp [mulData, hnan]
    | infinite t => simp [mulData, isNaN_pattern_of_le]
    | finite t n => by_cases hn : n = 0 <;> simp [mulData, hn, hnan, isNaN_pattern_of_le]
  | finite s m =>
    cases y with
    | nan => simp [mulData, hnan]
    | infinite t => by_cases hm : m = 0 <;> simp [mulData, hm, hnan, isNaN_pattern_of_le]
    | finite t n => simp [mulData, isNaN_ofRatio]

theorem isNaN_divData : F.isNaN (F.divData x y) = true ↔
    x = .nan ∨ y = .nan ∨ (∃ s t, x = .finite s 0 ∧ y = .finite t 0) ∨
      ∃ s t, x = .infinite s ∧ y = .infinite t := by
  have hnan := isNaN_quietNaN hF
  cases x with
  | nan => cases y <;> simp [divData, hnan]
  | infinite s => cases y <;> simp [divData, hnan, isNaN_pattern_of_le]
  | finite s m =>
    cases y with
    | nan => simp [divData, hnan]
    | infinite t => simp [divData, isNaN_pattern_of_le]
    | finite t n =>
      by_cases hn : n = 0
      · by_cases hm : m = 0 <;> simp [divData, hn, hm, hnan, isNaN_pattern_of_le]
      · simp [divData, hn, isNaN_ofRatio]

theorem isNaN_remData : F.isNaN (F.remData x y) = true ↔
    x = .nan ∨ y = .nan ∨ (∃ s, x = .infinite s) ∨ ∃ t, y = .finite t 0 := by
  have hnan := isNaN_quietNaN hF
  cases x with
  | nan => cases y <;> simp [remData, hnan]
  | infinite s => cases y <;> simp [remData, hnan]
  | finite s m =>
    cases y with
    | nan => simp [remData, hnan]
    | infinite t => simp [remData, isNaN_ofRatio]
    | finite t n => by_cases hn : n = 0 <;> simp [remData, hn, hnan, isNaN_ofRatio]

end Invalid

/-- A number other than zero, or an infinity, over a zero. -/
theorem div_zero_eq (hF : F.Regular) (hnan : F.isNaN p = false) (hp : ¬ F.HasValue p 0)
    (hq : F.HasValue q 0) : F.div p q = F.pattern (F.isNegative p ^^ F.isNegative q) F.infinity := by
  have hdecode := (decode_eq_zero_iff hF).mpr ⟨hq, rfl⟩
  unfold div
  rw [hdecode]
  cases hx : F.decode p with
  | nan => exact absurd hx (isNaN_eq_false_iff.mp hnan)
  | infinite s =>
    obtain ⟨-, rfl⟩ := decode_eq_infinite_iff.mp hx
    rfl
  | finite s m =>
    have hm : m ≠ 0 := by
      rintro rfl
      exact hp ((decode_eq_zero_iff hF).mp hx).1
    rw [(decode_eq_finite_iff.mp hx).2.1]
    simp [divData, hm]

theorem div_infinite_eq {x : ℚ} (hp : F.HasValue p x) (hq : F.IsInfinite q) :
    F.div p q = F.pattern (F.isNegative p ^^ F.isNegative q) 0 := by
  unfold div
  rw [decode_eq_infinite_iff.mpr ⟨hq, rfl⟩, decode_finite (hasValue_iff.mp hp).1]
  rfl

theorem isNegative_convert (hG : G.Regular) (p : ℕ) :
    G.isNegative (F.convert G p) = F.isNegative p := by
  have hfit := quietNaN_add_lt hG.fraction (F.payload_lt G p)
  unfold convert
  cases hx : F.decode p with
  | nan => exact isNegative_pattern hfit
  | infinite s =>
    obtain ⟨-, rfl⟩ := decode_eq_infinite_iff.mp hx
    exact isNegative_pattern G.infinity_lt_signBit
  | finite s u =>
    rw [(decode_eq_finite_iff.mp hx).2.1]
    exact isNegative_pattern ((G.nearest_le_infinity _ _).trans_lt G.infinity_lt_signBit)

theorem isNaN_convert (hG : G.Regular) (p : ℕ) : G.isNaN (F.convert G p) = F.isNaN p := by
  cases hx : F.decode p with
  | nan =>
    rw [decode_eq_nan_iff.mp hx]
    exact decode_eq_nan_iff.mp (convert_nan hG.fraction hx)
  | infinite s =>
    have hnan : F.isNaN p = false := isNaN_eq_false_iff.mpr (by simp [hx])
    rw [hnan]
    unfold convert
    rw [hx]
    exact isNaN_pattern_of_le le_rfl
  | finite s u =>
    have hnan : F.isNaN p = false := isNaN_eq_false_iff.mpr (by simp [hx])
    rw [hnan]
    unfold convert
    rw [hx]
    exact G.isNaN_ofRatio _ _ _

theorem isInfinite_convert (G : Format) (h : F.IsInfinite p) : G.IsInfinite (F.convert G p) := by
  unfold convert
  rw [decode_eq_infinite_iff.mpr ⟨h, rfl⟩]
  exact G.isInfinite_pattern _

theorem hasValue_zero_convert (hF : F.Regular) (hG : G.Regular) (h : F.HasValue p 0) :
    G.HasValue (F.convert G p) 0 := by
  have hzero : G.nearest 0 (2 ^ F.scale) = 0 := nearest_eq_zero (by simp)
  unfold convert
  rw [(decode_eq_zero_iff hF).mpr ⟨h, rfl⟩]
  simp only [ofRatio, hzero]
  exact hasValue_pattern_zero hG _

end Format
end ScalarEval.Ieee
