import Mathlib
import ScalarEval.Proofs.Division

/-! Negation at the signed integer kinds. It is the difference from zero and one more than the
complement, but it has no flag: only the least integer has no negation of its kind, and is given
back. Subtraction is addition of the negation up to that one flag. -/
namespace ScalarEval

namespace Kind
variable {k : Kind} {a b : ℤ}

theorem isInteger_of_isSignedInteger (hk : k.isSignedInteger = true) : k.isInteger = true :=
  (Bool.and_eq_true_iff.mp hk).1

theorem isSigned_of_isSignedInteger (hk : k.isSignedInteger = true) : k.isSigned = true :=
  (Bool.and_eq_true_iff.mp hk).2

theorem minValue_eq (hk : k.isSignedInteger = true) : k.minValue = -k.maxValue - 1 := by
  have hmin := (k.bounds_of_isInteger (isInteger_of_isSignedInteger hk)).2
  rwa [isSigned_of_isSignedInteger hk, if_pos rfl] at hmin

theorem fits_minValue (hk : k.isSignedInteger = true) : k.fits k.minValue = true := by
  obtain ⟨hmax, -⟩ := k.bounds_of_isInteger (isInteger_of_isSignedInteger hk)
  have hmin := minValue_eq hk
  rw [fits_iff]
  omega

/-- The least integer alone has no negation within the bounds. -/
theorem fits_neg_eq_false_iff (hk : k.isSignedInteger = true) (ha : k.fits a = true) :
    k.fits (-a) = false ↔ a = k.minValue := by
  have hmin := minValue_eq hk
  rw [fits_iff] at ha
  rw [fits_eq_false_iff]
  omega

theorem wrap_neg (hk : k.isSignedInteger = true) (ha : k.fits a = true) :
    k.wrap (-a) = if a = k.minValue then a else -a := by
  split_ifs with hleast
  · rw [hleast, wrap_neg_minValue (isInteger_of_isSignedInteger hk)]
  · have hfits : k.fits (-a) = true := by
      rw [← Bool.not_eq_false, fits_neg_eq_false_iff hk ha]
      exact hleast
    exact wrap_eq_of_fits hfits

theorem wrap_neg_eq_minValue_iff (hk : k.isSignedInteger = true) (ha : k.fits a = true) :
    k.wrap (-a) = k.minValue ↔ a = k.minValue := by
  have hmin := minValue_eq hk
  have hbounds := fits_iff.mp ha
  rw [wrap_neg hk ha]
  split_ifs <;> omega

theorem wrap_neg_eq_self_iff (hk : k.isSignedInteger = true) (ha : k.fits a = true) :
    k.wrap (-a) = a ↔ a = 0 ∨ a = k.minValue := by
  rw [wrap_neg hk ha]
  split_ifs <;> omega

/-- Subtracting the least integer overflows exactly where adding it does not. -/
theorem fits_sub_ne_fits_add_wrap_neg_iff (hk : k.isSignedInteger = true) (ha : k.fits a = true)
    (hb : k.fits b = true) :
    k.fits (a - b) ≠ k.fits (a + k.wrap (-b)) ↔ b = k.minValue := by
  have hmin := minValue_eq hk
  have hbounds := fits_iff.mp ha
  rw [wrap_neg hk hb]
  split_ifs with hleast
  · refine iff_of_true (fun hflags => ?_) hleast
    have hsame : k.fits (a - b) = true ↔ k.fits (a + b) = true := by rw [hflags]
    rw [fits_iff, fits_iff] at hsame
    omega
  · exact iff_of_false (not_not.mpr (by rw [Int.sub_eq_add_neg])) hleast

end Kind

namespace Evaluate
variable {k : Kind}

/-- What negation of plain words has in common with subtraction, complement and addition at the same
kind, and where their flags part. -/
structure NegationLaws (k : Kind) : Prop where
  eq_zero_sub (x : BitVec 64) : ∃ v overflow, unary .neg ⟨.ofBits x, k⟩ = .done v ∧
    (onPlain (.arithmetic .sub) k 0 x).outcome = .ok ⟨v, overflow⟩ ∧
    (overflow = true ↔ (Value.ofBits x).read k = k.minValue) ∧
    (v = .ofInt k.minValue k ↔ (Value.ofBits x).read k = k.minValue)
  eq_not_add_one (x : BitVec 64) : ∃ v c overflow,
    (unary .neg ⟨.ofBits x, k⟩).outcome = .ok v ∧ (unary .not ⟨.ofBits x, k⟩).outcome = .ok c ∧
    (binary (.arithmetic .add) ⟨c, k⟩ ⟨.ofBits 1, k⟩).outcome = .ok ⟨v, overflow⟩
  neg_neg (x : BitVec 64) : ∃ v, (unary .neg ⟨.ofBits x, k⟩).outcome = .ok v ∧
    (unary .neg ⟨v, k⟩).outcome = .ok (.ofBits (k.extendLow x))
  eq_self_iff (x : BitVec 64) :
    (unary .neg ⟨.ofBits x, k⟩).outcome = .ok (.ofBits (k.extendLow x)) ↔
      (Value.ofBits x).read k = 0 ∨ (Value.ofBits x).read k = k.minValue
  sub_eq_add_neg (a b : BitVec 64) : ∃ n v overflow overflow',
    (unary .neg ⟨.ofBits b, k⟩).outcome = .ok n ∧
    (onPlain (.arithmetic .sub) k a b).outcome = .ok ⟨v, overflow⟩ ∧
    (binary (.arithmetic .add) ⟨.ofBits a, k⟩ ⟨n, k⟩).outcome = .ok ⟨v, overflow'⟩ ∧
    (overflow ≠ overflow' ↔ (Value.ofBits b).read k = k.minValue)

section
variable (hk : k.isSignedInteger = true)
include hk

/-- Negation makes no record. -/
theorem unary_neg_eq (v : Value) : unary .neg ⟨v, k⟩ = .done (.ofInt (-v.read k) k) :=
  if_pos hk

theorem outcome_neg (v : Value) : (unary .neg ⟨v, k⟩).outcome = .ok (.ofInt (-v.read k) k) :=
  outcome_negation (Kind.isInteger_of_isSignedInteger hk) (Kind.isSigned_of_isSignedInteger hk) v

theorem outcome_undivided (op : Arithmetic) (hop : op.divides = false) {l r : Value}
    (h : l.alloc = r.alloc) : (binary (.arithmetic op) ⟨l, k⟩ ⟨r, k⟩).outcome =
      .ok ⟨.ofInt (op.exact (l.read k) (r.read k)) k,
        !k.fits (op.exact (l.read k) (r.read k))⟩ := by
  have ho := outcome_arithmetic (Kind.isInteger_of_isSignedInteger hk) op h
    fun hd => by simp [hop] at hd
  rwa [Arithmetic.measured_eq_exact hop] at ho

end

/-- Negation of a signed integer is subtraction from zero without the flag. -/
theorem negationLaws (hk : k.isSignedInteger = true) : NegationLaws k where
  eq_zero_sub x := by
    have hfits := (Value.ofBits x).fits_read k
    have hzero : (Value.ofBits 0).read k = 0 := Kind.wrap_eq_zero_iff.mpr (dvd_zero _)
    have hsub := outcome_undivided hk .sub rfl (l := .ofBits 0) (r := .ofBits x) rfl
    simp only [Arithmetic.exact, hzero, zero_sub] at hsub
    refine ⟨_, _, unary_neg_eq hk _, hsub, ?_, ?_⟩
    · rw [Bool.not_eq_true', Kind.fits_neg_eq_false_iff hk hfits]
    · rw [Value.ofInt_eq_ofInt_iff, Kind.wrap_eq_of_fits (Kind.fits_minValue hk),
        Kind.wrap_neg_eq_minValue_iff hk hfits]
  eq_not_add_one x := by
    have hnot := outcome_complement (Kind.isInteger_of_isSignedInteger hk) (.ofBits x)
    have hadd := outcome_undivided hk .add rfl
      (l := .ofInt (-(Value.ofBits x).read k - 1) k) (r := .ofBits 1) rfl
    have hstored : Value.ofInt (k.wrap (-(Value.ofBits x).read k - 1) + (Value.ofBits 1).read k) k =
        .ofInt (-(Value.ofBits x).read k) k := by
      refine congrArg Value.ofBits (Kind.extend_congr ?_)
      calc
        k.wrap (-(Value.ofBits x).read k - 1) + (Value.ofBits 1).read k
          ≡ -(Value.ofBits x).read k - 1 + 1 [ZMOD 2 ^ k.width] :=
            (k.wrap_modEq _).add ((Value.ofBits 1).read_modEq k)
        _ = -(Value.ofBits x).read k := sub_add_cancel _ _
    simp only [Arithmetic.exact, Value.read_ofInt, hstored] at hadd
    exact ⟨_, _, _, outcome_neg hk _, hnot, hadd⟩
  neg_neg x := by
    refine ⟨_, outcome_neg hk _, ?_⟩
    rw [outcome_neg hk, ← Value.ofInt_read, Value.read_ofInt]
    have hmod : -k.wrap (-(Value.ofBits x).read k) ≡ (Value.ofBits x).read k [ZMOD 2 ^ k.width] := by
      have hneg := (k.wrap_modEq (-(Value.ofBits x).read k)).neg
      rwa [Int.neg_neg] at hneg
    exact congrArg (Except.ok ∘ Value.ofBits) (Kind.extend_congr hmod)
  eq_self_iff x := by
    have hfits := (Value.ofBits x).fits_read k
    rw [outcome_neg hk, ← Value.ofInt_read, Except.ok.injEq, Value.ofInt_eq_ofInt_iff,
      Value.wrap_read, Kind.wrap_neg_eq_self_iff hk hfits]
  sub_eq_add_neg a b := by
    have hsub := outcome_undivided hk .sub rfl (l := .ofBits a) (r := .ofBits b) rfl
    have hadd := outcome_undivided hk .add rfl (l := .ofBits a)
      (r := .ofInt (-(Value.ofBits b).read k) k) rfl
    have hstored : Value.ofInt ((Value.ofBits a).read k + k.wrap (-(Value.ofBits b).read k)) k =
        .ofInt ((Value.ofBits a).read k - (Value.ofBits b).read k) k := by
      rw [Int.sub_eq_add_neg]
      exact congrArg Value.ofBits (Kind.extend_congr ((k.wrap_modEq _).add_left _))
    simp only [Arithmetic.exact, Value.read_ofInt, hstored] at hsub hadd
    refine ⟨_, _, _, _, outcome_neg hk _, hsub, hadd, ?_⟩
    rw [ne_eq, Bool.not_inj_iff]
    exact Kind.fits_sub_ne_fits_add_wrap_neg_iff hk ((Value.ofBits a).fits_read k)
      ((Value.ofBits b).fits_read k)

/-- The least `i8`, with bits beside the width of the kind: subtraction tells that its negation does
not fit. -/
theorem negationLaws_least_i8 :
    Kind.i8.isSignedInteger = true ∧ (Value.ofBits 0x180).read .i8 = Kind.i8.minValue ∧
      unary .neg ⟨.ofBits 0x180, .i8⟩ = .done (.ofInt (-128) .i8) ∧
      (onPlain (.arithmetic .sub) .i8 0 0x180).outcome = .ok ⟨.ofInt (-128) .i8, true⟩ := by
  have hread : (Value.ofBits 0x180).read .i8 = Kind.i8.minValue := by decide
  obtain ⟨v, overflow, hneg, hsub, hflag, hleast⟩ :=
    (negationLaws (k := .i8) rfl).eq_zero_sub 0x180
  obtain rfl : v = .ofInt (-128) .i8 := hleast.mpr hread
  obtain rfl : overflow = true := hflag.mpr hread
  exact ⟨rfl, hread, hneg, hsub⟩

end Evaluate
end ScalarEval
