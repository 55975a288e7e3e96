import Mathlib
import ScalarEval.Proofs.Ieee.Arithmetic
import ScalarEval.Proofs.Ieee.Remainder
import ScalarEval.Proofs.Ieee.Special

/-! Negation of patterns flips the sign bit, also of NaNs. Operations commute with it up to what NaN
they give: signs of products, quotients and remainders do not take part in rounding. -/
namespace ScalarEval.Ieee

namespace Datum
variable {x : Datum} {s : Bool}

@[simp] theorem negate_eq_nan_iff : x.negate = .nan ↔ x = .nan := by
  cases x <;> simp [negate]

@[simp] theorem negate_eq_infinite_iff : x.negate = .infinite s ↔ x = .infinite (!s) := by
  cases x <;> simp [negate, Bool.not_eq_eq_eq_not]

theorem signed_eq_neg_iff {s : Bool} {m n : ℕ} (hn : 0 < n) :
    signed s m = -(n : ℤ) ↔ s = true ∧ m = n := by
  cases s with
  | false => simp [signed]; omega
  | true => simp [signed]

/-- The sign is read off the signed units, or is that of the zero. -/
theorem sign_signed (s : Bool) (m : ℕ) :
    (if signed s m = 0 then s else decide (signed s m < 0)) = s := by
  cases s <;> simp [signed]
  omega

end Datum

namespace Format
variable {F : Format} {p q r m : ℕ} {s : Bool}

/-- The pattern under the other sign. Bits above the sign are dropped. -/
def neg (F : Format) (p : ℕ) : ℕ :=
  F.pattern (!F.isNegative p) (F.magnitude p)

theorem neg_lt (F : Format) (p : ℕ) : F.neg p < 2 * F.signBit :=
  pattern_lt (F.magnitude_lt_signBit p)

@[simp] theorem magnitude_neg (F : Format) (p : ℕ) : F.magnitude (F.neg p) = F.magnitude p :=
  magnitude_pattern (F.magnitude_lt_signBit p)

@[simp] theorem isNegative_neg (F : Format) (p : ℕ) : F.isNegative (F.neg p) = !F.isNegative p :=
  isNegative_pattern (F.magnitude_lt_signBit p)

@[simp] theorem isNaN_neg (F : Format) (p : ℕ) : F.isNaN (F.neg p) = F.isNaN p := by
  rw [isNaN, isNaN, magnitude_neg]

theorem decode_neg (F : Format) (p : ℕ) : F.decode (F.neg p) = (F.decode p).negate := by
  simp only [decode, magnitude_neg, isNegative_neg]
  split_ifs <;> rfl

theorem neg_pattern (hm : m < F.signBit) : F.neg (F.pattern s m) = F.pattern (!s) m := by
  rw [neg, isNegative_pattern hm, magnitude_pattern hm]

theorem neg_neg (F : Format) (p : ℕ) : F.neg (F.neg p) = p % (2 * F.signBit) := by
  rw [neg, isNegative_neg, magnitude_neg, Bool.not_not, pattern_fields]

theorem magnitude_xor_signBit (F : Format) (p : ℕ) :
    F.magnitude (p ^^^ F.signBit) = F.magnitude p := by
  unfold magnitude signBit
  rw [Nat.xor_mod_two_pow, Nat.mod_self, Nat.xor_zero]

theorem isNegative_xor_signBit (F : Format) (p : ℕ) :
    F.isNegative (p ^^^ F.signBit) = !F.isNegative p := by
  have hfield : (p ^^^ F.signBit) / F.signBit = p / F.signBit ^^^ 1 := by
    unfold signBit
    rw [Nat.xor_div_two_pow, Nat.div_self (Nat.two_pow_pos _)]
  have hlow : (p / F.signBit ^^^ 1) % 2 = p / F.signBit % 2 ^^^ 1 :=
    Nat.xor_mod_two_pow (n := 1)
  unfold isNegative
  rw [hfield, hlow]
  rcases Nat.mod_two_eq_zero_or_one (p / F.signBit) with h | h <;> rw [h] <;> rfl

/-- Negation toggles one bit and drops those above it. -/
theorem xor_signBit_mod (F : Format) (p : ℕ) :
    (p ^^^ F.signBit) % (2 * F.signBit) = F.neg p := by
  rw [← pattern_fields, isNegative_xor_signBit, magnitude_xor_signBit, neg]

theorem neg_mod (F : Format) (p : ℕ) : F.neg (p % (2 * F.signBit)) = F.neg p := by
  rw [neg, neg, isNegative_mod, magnitude_mod]

/-- Toggling the sign bit of a pattern without bits above it negates it. -/
theorem xor_signBit {n : ℕ} (hn : 2 * F.signBit = 2 ^ n) (hp : p < 2 ^ n) :
    p ^^^ F.signBit = F.neg p := by
  have hbit : F.signBit < 2 ^ n := by
    have hpos : 0 < F.signBit := Nat.two_pow_pos _
    omega
  rw [← xor_signBit_mod, hn, Nat.mod_eq_of_lt (Nat.xor_lt_two_pow hp hbit)]

theorem neg_ofRatio (F : Format) (s : Bool) (num den : ℕ) :
    F.neg (F.ofRatio s num den) = F.ofRatio (!s) num den :=
  neg_pattern ((F.nearest_le_infinity num den).trans_lt F.infinity_lt_signBit)

/-- Equal patterns, or two NaNs. -/
def Same (F : Format) (p q : ℕ) : Prop :=
  p = q ∨ F.isNaN p = true ∧ F.isNaN q = true

theorem Same.symm (h : F.Same p q) : F.Same q p :=
  h.imp Eq.symm And.symm

theorem Same.trans (h : F.Same p q) (h' : F.Same q r) : F.Same p r := by
  rcases h with rfl | ⟨hp, hq⟩
  · exact h'
  · rcases h' with rfl | ⟨-, hr⟩
    · exact .inr ⟨hp, hq⟩
    · exact .inr ⟨hp, hr⟩

theorem same_neg_quietNaN (hF : F.Regular) : F.Same F.quietNaN (F.neg F.quietNaN) :=
  .inr ⟨isNaN_quietNaN hF, (F.isNaN_neg _).trans (isNaN_quietNaN hF)⟩

theorem same_pattern_not_xor (s t : Bool) (hm : m ≤ F.infinity) :
    F.Same (F.pattern (!s ^^ t) m) (F.neg (F.pattern (s ^^ t) m)) := by
  rw [neg_pattern (hm.trans_lt F.infinity_lt_signBit), Bool.not_xor]
  exact .inl rfl

theorem same_ofRatio_not_xor (s t : Bool) (num den : ℕ) :
    F.Same (F.ofRatio (!s ^^ t) num den) (F.neg (F.ofRatio (s ^^ t) num den)) :=
  same_pattern_not_xor s t (F.nearest_le_infinity num den)

/-- Only the exclusive or of the two signs counts. -/
theorem divData_negate_right (F : Format) (x y : Datum) :
    F.divData x y.negate = F.divData x.negate y := by
  cases x <;> cases y <;> simp [Datum.negate, divData]

/-- A remainder has the sign of the dividend. -/
theorem remData_negate_right (F : Format) (x y : Datum) :
    F.remData x y.negate = F.remData x y := by
  cases x <;> cases y <;> simp [Datum.negate, remData]

section Commutes
variable (hF : F.Regular) (x y : Datum)
include hF

theorem same_mulData_negate_left : F.Same (F.mulData x.negate y) (F.neg (F.mulData x y)) := by
  have hnan := same_neg_quietNaN hF
  cases x with
  | nan => cases y <;> exact hnan
  | infinite s =>
    cases y with
    | nan => exact hnan
    | infinite t => exact same_pattern_not_xor s t le_rfl
    | finite t n =>
      simp only [Datum.negate, mulData]
      split_ifs
      · exact hnan
      · exact same_pattern_not_xor s t le_rfl
  | finite s m =>
    cases y with
    | nan => exact hnan
    | infinite t =>
      simp only [Datum.negate, mulData, Bool.xor_not, ← Bool.not_xor]
      split_ifs
      · exact hnan
      · exact same_pattern_not_xor t s le_rfl
    | finite t n => exact same_ofRatio_not_xor s t _ _

theorem same_mulData_negate_right : F.Same (F.mulData x y.negate) (F.neg (F.mulData x y)) := by
  rw [F.mulData_comm x y, F.mulData_comm x]
  exact same_mulData_negate_left hF y x

theorem same_divData_negate_left : F.Same (F.divData x.negate y) (F.neg (F.divData x y)) := by
  have hnan := same_neg_quietNaN hF
  cases x with
  | nan => cases y <;> exact hnan
  | infinite s =>
    cases y with
    | nan | infinite t => exact hnan
    | finite t n => exact same_pattern_not_xor s t le_rfl
  | finite s m =>
    cases y with
    | nan => exact hnan
    | infinite t => exact same_pattern_not_xor s t (Nat.zero_le _)
    | finite t n =>
      simp only [Datum.negate, divData]
      split_ifs
      · exact hnan
      · exact same_pattern_not_xor s t le_rfl
      · exact same_ofRatio_not_xor s t _ _

theorem same_remData_negate_left : F.Same (F.remData x.negate y) (F.neg (F.remData x y)) := by
  have hnan := same_neg_quietNaN hF
  cases x with
  | nan => cases y <;> exact hnan
  | infinite s => cases y <;> exact hnan
  | finite s m =>
    cases y with
    | nan => exact hnan
    | infinite t => exact .inl (F.neg_ofRatio s _ _).symm
    | finite t n =>
      simp only [Datum.negate, remData]
      split_ifs
      · exact hnan
      · exact .inl (F.neg_ofRatio s _ _).symm

end Commutes

section Operators
variable (hF : F.Regular) (p q : ℕ)

theorem sub_eq_add_neg (F : Format) (p q : ℕ) : F.sub p q = F.add p (F.neg q) := by
  rw [sub, add, decode_neg]

theorem rem_neg (F : Format) (p q : ℕ) : F.rem p (F.neg q) = F.rem p q := by
  rw [rem, decode_neg, remData_negate_right]
  rfl

include hF

theorem same_mul_neg_left : F.Same (F.mul (F.neg p) q) (F.neg (F.mul p q)) := by
  rw [mul, decode_neg]
  exact same_mulData_negate_left hF _ _

theorem same_mul_neg_right : F.Same (F.mul p (F.neg q)) (F.neg (F.mul p q)) := by
  rw [mul, decode_neg]
  exact same_mulData_negate_right hF _ _

theorem same_div_neg_left : F.Same (F.div (F.neg p) q) (F.neg (F.div p q)) := by
  rw [div, decode_neg]
  exact same_divData_negate_left hF _ _

theorem same_div_neg_right : F.Same (F.div p (F.neg q)) (F.neg (F.div p q)) := by
  rw [div, decode_neg, divData_negate_right]
  exact same_divData_negate_left hF _ _

theorem same_rem_neg_left : F.Same (F.rem (F.neg p) q) (F.neg (F.rem p q)) := by
  rw [rem, decode_neg]
  exact same_remData_negate_left hF _ _

end Operators

/-- A pattern of the value `-1` has the sign bit, and as many units as one is worth. -/
theorem hasValue_neg_one_iff (hF : F.Regular) :
    F.HasValue q (-1) ↔ F.decode q = .finite true (2 ^ F.scale) := by
  have hpos : (2 : ℚ) ^ F.scale ≠ 0 := by positivity
  have hsigned : F.rational q = -1 ↔
      Datum.signed (F.isNegative q) (F.units (F.magnitude q)) = -(2 ^ F.scale : ℕ) := by
    rw [rational_eq hF, div_eq_iff hpos, neg_one_mul]
    exact_mod_cast Iff.rfl
  rw [hasValue_iff, decode_eq_finite_iff, hsigned, Datum.signed_eq_neg_iff (Nat.two_pow_pos _)]

/-- Multiplying by `-1` is exact. -/
theorem same_neg_mul (hF : F.Regular) (p : ℕ) (hq : F.HasValue q (-1)) :
    F.Same (F.neg p) (F.mul p q) := by
  have hpos : 0 < 2 ^ F.scale := Nat.two_pow_pos _
  rw [mul, (hasValue_neg_one_iff hF).mp hq]
  rcases lt_trichotomy (F.magnitude p) F.infinity with hfinite | hinfinite | hnan
  · rw [decode_finite hfinite]
    simp only [mulData, ofRatio_mul _ _ _ _ hpos, ofRatio_units hfinite.le, Bool.xor_true]
    exact .inl rfl
  · rw [decode_infinite hinfinite]
    simp only [mulData, hpos.ne', if_false, Bool.xor_true, neg, hinfinite]
    exact .inl rfl
  · have hdecode : F.decode p = .nan := decode_eq_nan_iff.mpr (decide_eq_true hnan)
    rw [hdecode]
    exact .inr ⟨(F.isNaN_neg p).trans (decide_eq_true hnan), isNaN_quietNaN hF⟩

/-- Subtracting from `-0` is exact, and gives the zero of the other sign. -/
theorem same_neg_sub (hF : F.Regular) (p : ℕ) (hq : F.HasValue q 0) (hs : F.isNegative q = true) :
    F.Same (F.neg p) (F.sub q p) := by
  rw [sub, (decode_eq_zero_iff hF).mpr ⟨hq, hs⟩]
  rcases lt_trichotomy (F.magnitude p) F.infinity with hfinite | hinfinite | hnan
  · have hzero : Datum.signed true 0 = 0 := rfl
    rw [decode_finite hfinite, Datum.negate, addData_finite]
    simp only [hzero, zero_add, Bool.true_and, Datum.sign_signed, Datum.natAbs_signed,
      ofRatio_units hfinite.le]
    exact .inl rfl
  · rw [decode_infinite hinfinite, neg, hinfinite]
    exact .inl rfl
  · have hdecode : F.decode p = .nan := decode_eq_nan_iff.mpr (decide_eq_true hnan)
    rw [hdecode]
    exact .inr ⟨(F.isNaN_neg p).trans (decide_eq_true hnan), isNaN_quietNaN hF⟩

end Format
end ScalarEval.Ieee
