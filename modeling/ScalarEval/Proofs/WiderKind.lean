import Mathlib
import ScalarEval.Proofs.Comparison
import ScalarEval.Proofs.Reading
import ScalarEval.Proofs.Shifting

/-! Integer kinds within wider ones. A wider kind of the same signedness has every value of the
narrower kind, in the same word. What does not overflow at the narrower kind is computed alike at
both, and from twice the width on only remainders are left that could overflow. -/
namespace ScalarEval

/-- No result but a remainder is larger than the square of a bound on both operands. -/
theorem Arithmetic.abs_exact_le {op : Arithmetic} (hop : op ≠ .rem) {a b c : ℤ} (hc : 2 ≤ c)
    (ha : |a| ≤ c) (hb : |b| ≤ c) : |op.exact a b| ≤ c * c := by
  have hdouble : c + c ≤ c * c := by nlinarith
  cases op with
  | add => exact (abs_add_le a b).trans ((add_le_add ha hb).trans hdouble)
  | sub => exact (abs_sub a b).trans ((add_le_add ha hb).trans hdouble)
  | mul =>
    change |a * b| ≤ c * c
    rw [abs_mul]
    exact mul_le_mul ha hb (abs_nonneg b) (by omega)
  | div =>
    have hquotient : |a.tdiv b| ≤ |a| := by
      rw [Int.abs_eq_natAbs, Int.abs_eq_natAbs]
      exact_mod_cast Int.natAbs_tdiv_le_natAbs a b
    exact hquotient.trans (by omega)
  | rem => exact absurd rfl hop

namespace Kind

/-- Integer kinds of one signedness, the second as wide as the first or wider. -/
structure Widens (j k : Kind) : Prop where
  narrow : j.isInteger = true
  wide : k.isInteger = true
  isSigned_eq : j.isSigned = k.isSigned
  width_le : j.width ≤ k.width

variable {j k : Kind} {a b : ℤ} {w : BitVec 64}

theorem bounds_of_isSigned (hs : k.isSigned = true) :
    k.minValue = -2 ^ (k.width - 1) ∧ k.maxValue = 2 ^ (k.width - 1) - 1 := by
  unfold minValue maxValue
  rw [hs]
  push_cast
  exact ⟨rfl, rfl⟩

theorem extend_of_fits (h : k.fits a = true) : k.extend a = BitVec.ofInt 64 a :=
  congrArg (BitVec.ofInt 64) (wrap_eq_of_fits h)

namespace Widens

theorem minValue_le (h : j.Widens k) : k.minValue ≤ j.minValue := by
  unfold minValue
  rw [h.isSigned_eq]
  split_ifs
  · have hpow : 2 ^ (j.width - 1) ≤ 2 ^ (k.width - 1) :=
      Nat.pow_le_pow_right (by norm_num) (Nat.sub_le_sub_right h.width_le 1)
    exact neg_le_neg (by exact_mod_cast hpow)
  · exact le_rfl

theorem maxValue_le (h : j.Widens k) : j.maxValue ≤ k.maxValue := by
  have hwidth := h.width_le
  unfold maxValue
  rw [h.isSigned_eq]
  apply Int.sub_le_sub_right
  have hpow : 2 ^ (if k.isSigned = true then j.width - 1 else j.width) ≤
      2 ^ (if k.isSigned = true then k.width - 1 else k.width) := by
    apply Nat.pow_le_pow_right (by norm_num)
    split_ifs <;> omega
  exact_mod_cast hpow

theorem fits (h : j.Widens k) (ha : j.fits a = true) : k.fits a = true := by
  rw [fits_iff] at ha ⊢
  exact ⟨h.minValue_le.trans ha.1, ha.2.trans h.maxValue_le⟩

theorem extend_eq (h : j.Widens k) (ha : j.fits a = true) : k.extend a = j.extend a := by
  rw [extend_of_fits (h.fits ha), extend_of_fits ha]

/-- A word in which the narrower kind stores a value is read alike at both kinds. -/
theorem read_eq (h : j.Widens k) (hw : j.Canonical w) :
    (Value.ofBits w).read k = (Value.ofBits w).read j := by
  have hfits := (Value.ofBits w).fits_read j
  have hword : w = k.extend ((Value.ofBits w).read j) := by
    have hnarrow := eq_extend_of_canonical (isFloating_eq_false h.narrow) hw
    rw [h.extend_eq hfits]
    exact hnarrow.trans (j.extend_wrap _).symm
  calc
    (Value.ofBits w).read k = k.wrap (k.extend ((Value.ofBits w).read j)).toNat := by
      rw [← hword]
      rfl
    _ = (Value.ofBits w).read j := by rw [wrap_extend, wrap_eq_of_fits (h.fits hfits)]

/-- The narrower kind stores a value of the wider one in the same word exactly where it fits. -/
theorem canonical_extend_iff (h : j.Widens k) (ha : k.fits a = true) :
    j.Canonical (k.extend a) ↔ j.fits a = true := by
  refine ⟨fun hw => ?_, fun hj => ?_⟩
  · have hread := h.read_eq hw
    have hwide : (Value.ofBits (k.extend a)).read k = a :=
      (k.wrap_extend a).trans (wrap_eq_of_fits ha)
    rw [← hwide, hread]
    exact Value.fits_read _ j
  · rw [h.extend_eq hj]
    exact canonical_extend h.narrow a

/-- Twice the width holds the exact results of signed operands. -/
theorem fits_exact (h : j.Widens k) (hs : j.isSigned = true) (hdouble : 2 * j.width ≤ k.width)
    {op : Arithmetic} (hop : op ≠ .rem) (ha : j.fits a = true) (hb : j.fits b = true) :
    k.fits (op.exact a b) = true := by
  obtain ⟨hmax, -⟩ := bounds_of_isInteger h.narrow
  obtain ⟨hlow, hhigh⟩ := bounds_of_isSigned hs
  obtain ⟨hlow', hhigh'⟩ := bounds_of_isSigned (h.isSigned_eq ▸ hs)
  rw [fits_iff, hlow, hhigh] at ha hb
  rw [fits_iff, hlow', hhigh']
  have habs : |op.exact a b| ≤ 2 ^ (j.width - 1) * 2 ^ (j.width - 1) :=
    Arithmetic.abs_exact_le hop (by omega) (abs_le.mpr ⟨ha.1, by omega⟩)
      (abs_le.mpr ⟨hb.1, by omega⟩)
  have hsquare : (2 : ℤ) ^ (j.width - 1) * 2 ^ (j.width - 1) < 2 ^ (k.width - 1) := by
    have hpos := j.width_pos
    rw [← pow_add]
    exact pow_lt_pow_right₀ (by norm_num) (by omega)
  have hbounds := abs_le.mp habs
  omega

end Widens
end Kind

/-- Where the result that decides overflow fits, the result that is stored does. -/
theorem Arithmetic.fits_exact_of_measured {op : Arithmetic} {k : Kind} {a b : ℤ}
    (ha : k.fits a = true) (h : k.fits (op.measured a b) = true) :
    k.fits (op.exact a b) = true := by
  by_cases hop : op = .rem
  · rw [hop]
    exact Kind.fits_tmod ha b
  · rwa [Arithmetic.measured_of_ne_rem hop] at h

namespace Evaluate

/-- Integer operators on the same plain words at a kind and at a wider one. -/
structure WideningLaws (j k : Kind) (l r : BitVec 64) : Prop where
  arithmetic (op : Arithmetic) (v : Value) :
    (onPlain (.arithmetic op) j l r).outcome = .ok ⟨v, false⟩ →
      (onPlain (.arithmetic op) k l r).outcome = .ok ⟨v, false⟩
  divisionByZero (op : Arithmetic) :
    (onPlain (.arithmetic op) j l r).ending = .error .divisionByZero ↔
      (onPlain (.arithmetic op) k l r).ending = .error .divisionByZero
  bitwise (op : Bitwise) : ∃ x, (onPlain (.bitwise op) j l r).outcome = .ok x ∧
    (onPlain (.bitwise op) k l r).outcome = .ok x
  comparison (c : Comparison) : ∃ x, (onPlain (.comparison c) j l r).outcome = .ok x ∧
    (onPlain (.comparison c) k l r).outcome = .ok x
  shift_right (n : BitVec 64) (i : Kind) : n.toNat < j.width → ∃ x,
    (binary (.shift .right) ⟨.ofBits l, j⟩ ⟨.ofBits n, i⟩).outcome = .ok x ∧
    (binary (.shift .right) ⟨.ofBits l, k⟩ ⟨.ofBits n, i⟩).outcome = .ok x
  double (op : Arithmetic) : j.isSigned = true → 2 * j.width ≤ k.width → op ≠ .rem →
    (op = .div → (Value.ofBits r).read j ≠ 0) → ∃ x y,
      (onPlain (.arithmetic op) j l r).outcome = .ok x ∧
      (onPlain (.arithmetic op) k l r).outcome = .ok y ∧ y.overflow = false ∧
      (x.overflow = true ↔ ¬ j.Canonical y.value.bits) ∧
      x.value = .ofInt (y.value.read k) j

variable {j k : Kind} {l r : BitVec 64}

theorem outcome_onPlain_arithmetic (hk : k.isInteger = true) (op : Arithmetic)
    (hz : ¬ (op.divides = true ∧ (Value.ofBits r).read k = 0)) :
    (onPlain (.arithmetic op) k l r).outcome =
      .ok ⟨.ofInt (op.exact ((Value.ofBits l).read k) ((Value.ofBits r).read k)) k,
        !k.fits (op.measured ((Value.ofBits l).read k) ((Value.ofBits r).read k))⟩ :=
  outcome_arithmetic hk op (l := .ofBits l) (r := .ofBits r) rfl hz

theorem ending_onPlain_eq_divisionByZero_iff (hk : k.isInteger = true) (op : Arithmetic) :
    (onPlain (.arithmetic op) k l r).ending = .error .divisionByZero ↔
      op.divides = true ∧ (Value.ofBits r).read k = 0 :=
  ending_eq_divisionByZero_iff hk op (l := .ofBits l) (r := .ofBits r) rfl

theorem outcome_onPlain_of_fits (h : j.Widens k) (hl : j.Canonical l) (hr : j.Canonical r)
    {op : Arithmetic} {v : Value}
    (ho : (onPlain (.arithmetic op) j l r).outcome = .ok ⟨v, false⟩) :
    (onPlain (.arithmetic op) k l r).outcome = .ok ⟨v, false⟩ := by
  have hz : ¬ (op.divides = true ∧ (Value.ofBits r).read j = 0) := by
    intro hz
    have hstop := (ending_onPlain_eq_divisionByZero_iff (l := l) h.narrow op).mpr hz
    rw [Evaluation.ending_eq_ok_iff.mpr ho] at hstop
    cases hstop
  have hnarrow := outcome_onPlain_arithmetic (l := l) h.narrow op hz
  obtain ⟨rfl, hflag⟩ := Result.mk.inj (Except.ok.inj (ho.symm.trans hnarrow))
  have hmeasured : j.fits (op.measured ((Value.ofBits l).read j) ((Value.ofBits r).read j)) =
      true := by simpa using hflag
  have hexact := Arithmetic.fits_exact_of_measured ((Value.ofBits l).fits_read j) hmeasured
  rw [outcome_onPlain_arithmetic h.wide op (by rwa [h.read_eq hr]), h.read_eq hl, h.read_eq hr,
    h.fits hmeasured, Value.ofInt, h.extend_eq hexact]
  rfl

theorem outcome_onPlain_double (h : j.Widens k) (hl : j.Canonical l) (hr : j.Canonical r)
    (hs : j.isSigned = true) (hdouble : 2 * j.width ≤ k.width) {op : Arithmetic} (hop : op ≠ .rem)
    (hz : op = .div → (Value.ofBits r).read j ≠ 0) : ∃ x y,
      (onPlain (.arithmetic op) j l r).outcome = .ok x ∧
      (onPlain (.arithmetic op) k l r).outcome = .ok y ∧ y.overflow = false ∧
      (x.overflow = true ↔ ¬ j.Canonical y.value.bits) ∧
      x.value = .ofInt (y.value.read k) j := by
  have hz' := Arithmetic.not_divides_by_zero hop hz
  have hfits := h.fits_exact hs hdouble hop ((Value.ofBits l).fits_read j)
    ((Value.ofBits r).fits_read j)
  refine ⟨_, _, outcome_onPlain_arithmetic h.narrow op hz',
    outcome_onPlain_arithmetic h.wide op (by rwa [h.read_eq hr]), ?_, ?_, ?_⟩
  · rw [h.read_eq hl, h.read_eq hr, Arithmetic.measured_of_ne_rem hop, hfits]
    rfl
  · have hcanonical := not_congr (h.canonical_extend_iff hfits)
    rw [h.read_eq hl, h.read_eq hr, Arithmetic.measured_of_ne_rem hop, Bool.not_eq_true',
      ← Bool.not_eq_true]
    exact hcanonical.symm
  · rw [Value.read_ofInt, h.read_eq hl, h.read_eq hr, Kind.wrap_eq_of_fits hfits]

/-- A quotient by a power of two does not depend on the kind, as long as the amount is reduced at
neither. -/
theorem outcome_shift_right_widened (h : j.Widens k) (hl : j.Canonical l) {n : BitVec 64}
    (hn : n.toNat < j.width) (i : Kind) : ∃ x,
      (binary (.shift .right) ⟨.ofBits l, j⟩ ⟨.ofBits n, i⟩).outcome = .ok x ∧
      (binary (.shift .right) ⟨.ofBits l, k⟩ ⟨.ofBits n, i⟩).outcome = .ok x := by
  have hnarrow := outcome_shift_right (l := .ofBits l) (r := .ofBits n) h.narrow rfl i
  have hwide := outcome_shift_right (l := .ofBits l) (r := .ofBits n) h.wide rfl i
  have hamount : j.amount (.ofBits n) = n.toNat := Nat.mod_eq_of_lt hn
  have hamount' : k.amount (.ofBits n) = n.toNat := Nat.mod_eq_of_lt (hn.trans_le h.width_le)
  have hfits : j.fits ((Value.ofBits l).read j / 2 ^ n.toNat) = true :=
    Kind.fits_ediv ((Value.ofBits l).fits_read j) (by positivity)
  rw [hamount] at hnarrow
  rw [hamount', h.read_eq hl, Value.ofInt, h.extend_eq hfits] at hwide
  exact ⟨_, hnarrow, hwide⟩

/-- A wider kind gives what a narrower one gives, except where the narrower one overflows. From
twice the width on it then has the exact result. -/
theorem wideningLaws (h : j.Widens k) (hl : j.Canonical l) (hr : j.Canonical r) :
    WideningLaws j k l r where
  arithmetic op v := outcome_onPlain_of_fits h hl hr
  divisionByZero op := by
    rw [ending_onPlain_eq_divisionByZero_iff h.narrow, ending_onPlain_eq_divisionByZero_iff h.wide,
      h.read_eq hr]
  bitwise op := ⟨_, outcome_bitwise op j l r, outcome_bitwise op k l r⟩
  comparison c := by
    have hsame (i : Kind) (hi : i.isInteger = true) : (onPlain (.comparison c) i l r).outcome =
        .ok ⟨.ofBool (c.holds (some (compare l.toNat r.toNat))), false⟩ := by
      rw [← order_of_isFloating_eq_false (Kind.isFloating_eq_false hi)]
      exact outcome_comparison none i c l r
    exact ⟨_, hsame j h.narrow, hsame k h.wide⟩
  shift_right n i hn := outcome_shift_right_widened h hl hn i
  double op hs hdouble hop hz := outcome_onPlain_double h hl hr hs hdouble hop hz

/-- The least `i8` times itself and divided by -1, at `i8` and at `i16`. -/
theorem wideningLaws_least_i8 :
    Kind.i8.Widens .i16 ∧ Kind.i8.Canonical (-128) ∧ Kind.i8.Canonical (-1) ∧
      WideningLaws .i8 .i16 (-128) (-128) ∧ WideningLaws .i8 .i16 (-128) (-1) ∧
      (onPlain (.arithmetic .mul) .i16 (-128) (-128)).outcome = .ok ⟨.ofBits 0x4000, false⟩ ∧
      (onPlain (.arithmetic .div) .i16 (-128) (-1)).outcome = .ok ⟨.ofBits 128, false⟩ := by
  have h : Kind.i8.Widens .i16 := ⟨rfl, rfl, rfl, by decide⟩
  have hl : Kind.i8.Canonical (-128) := by decide
  have hr : Kind.i8.Canonical (-1) := by decide
  exact ⟨h, hl, hr, wideningLaws h hl hl, wideningLaws h hl hr, by decide +kernel,
    by decide +kernel⟩

end Evaluate
end ScalarEval
