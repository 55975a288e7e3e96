import Mathlib
import ScalarEval.Proofs.Canonical
import ScalarEval.Proofs.Integer
import ScalarEval.Proofs.Rational

/-! Integer arithmetic at the width of a kind. A sum, a difference, a product or a quotient is
stored modulo `2 ^ width`, and the flag tells exactly when that changed it. -/
namespace ScalarEval

namespace Kind
variable {k : Kind} {a b : ℤ}

theorem fits_eq_false_iff {n : ℤ} : k.fits n = false ↔ n < k.minValue ∨ k.maxValue < n := by
  rw [← Bool.not_eq_true, fits_iff]
  omega

/-- The bounds of unsigned and of signed kinds. -/
theorem bounds_of_isInteger (hk : k.isInteger = true) :
    1 < k.maxValue ∧ k.minValue = if k.isSigned = true then -k.maxValue - 1 else 0 := by
  revert hk
  cases k <;> decide

/-- Only the least integer has a quotient of its kind beyond the bounds. -/
theorem fits_tdiv_eq_false_iff (hk : k.isInteger = true) (ha : k.fits a = true)
    (hb : k.fits b = true) (hb0 : b ≠ 0) :
    k.fits (a.tdiv b) = false ↔ k.isSigned = true ∧ a = k.minValue ∧ b = -1 := by
  obtain ⟨hmax, hmin⟩ := k.bounds_of_isInteger hk
  rw [fits_iff] at ha hb
  rw [fits_eq_false_iff]
  have habs := Int.natAbs_tdiv_le_natAbs a b
  by_cases hsigned : k.isSigned = true
  · rw [if_pos hsigned] at hmin
    have hnegated : b = -1 → a.tdiv b = -a := fun h => by rw [h, Int.tdiv_neg, Int.tdiv_one]
    have hsame : b = 1 → a.tdiv b = a := fun h => by rw [h, Int.tdiv_one]
    have hhalf : 1 < b.natAbs → (a.tdiv b).natAbs ≤ a.natAbs / 2 := fun h => by
      rw [Int.natAbs_tdiv]
      exact Nat.div_le_div_left h (by norm_num)
    simp only [hsigned, eq_self, true_and]
    omega
  · rw [if_neg hsigned] at hmin
    have hnonneg := Int.tdiv_nonneg (by omega : 0 ≤ a) (by omega : 0 ≤ b)
    simp only [hsigned]
    omega

/-- The negated least integer is congruent to itself. -/
theorem wrap_neg_minValue (hk : k.isInteger = true) : k.wrap (-k.minValue) = k.minValue := by
  revert hk
  cases k <;> decide

end Kind

theorem Value.fits_read (v : Value) (k : Kind) : k.fits (v.read k) = true :=
  k.fits_wrap _

/-- How arithmetic at a kind stores an exact result. -/
structure Result.Stores (x : Result) (k : Kind) (e : ℤ) : Prop where
  modEq : x.value.read k ≡ e [ZMOD 2 ^ k.width]
  canonical : k.Canonical x.value.bits
  plain : x.value.alloc = none
  overflow_iff : x.overflow = true ↔ e < k.minValue ∨ k.maxValue < e
  eq_of_fits : x.overflow = false → x.value.read k = e

namespace Evaluate
variable {k : Kind} {op : Arithmetic} {l r : Value}

theorem stores_exact (hk : k.isInteger = true) (e : ℤ) :
    Result.Stores ⟨.ofInt e k, !k.fits e⟩ k e where
  modEq := by
    rw [Value.read_ofInt]
    exact k.wrap_modEq e
  canonical := Kind.canonical_extend hk e
  plain := rfl
  overflow_iff := by rw [Bool.not_eq_true', Kind.fits_eq_false_iff]
  eq_of_fits h := by
    rw [Value.read_ofInt]
    exact Kind.wrap_eq_of_fits (by simpa using h)

/-- Arithmetic other than a remainder stores the result of the rationals, rounded toward zero. Only
the quotient of the least integer by -1 overflows, and gives the least integer back. -/
theorem arithmetic_stores (hk : k.isInteger = true) (hop : op ≠ .rem) (h : l.alloc = r.alloc)
    (hz : op = .div → r.read k ≠ 0) :
    ∃ x, (binary (.arithmetic op) ⟨l, k⟩ ⟨r, k⟩).outcome = .ok x ∧
      x.Stores k (truncate (op.rational (l.read k) (r.read k))) ∧
      (op = .div →
        (x.overflow = true ↔ k.isSigned = true ∧ l.read k = k.minValue ∧ r.read k = -1) ∧
        (x.overflow = true → x.value.read k = k.minValue)) := by
  have hz' := Arithmetic.not_divides_by_zero hop hz
  refine ⟨_, outcome_arithmetic hk op h hz', ?_, ?_⟩
  · rw [Arithmetic.measured_of_ne_rem hop, ← Arithmetic.exact_eq_truncate]
    exact stores_exact hk _
  · rintro rfl
    have hflag : (!k.fits ((l.read k).tdiv (r.read k))) = true ↔
        k.isSigned = true ∧ l.read k = k.minValue ∧ r.read k = -1 := by
      rw [Bool.not_eq_true']
      exact Kind.fits_tdiv_eq_false_iff hk (l.fits_read k) (r.fits_read k) (hz rfl)
    refine ⟨hflag, fun ho => ?_⟩
    obtain ⟨-, hl, hr⟩ := hflag.mp ho
    simp only [Arithmetic.exact, Value.read_ofInt, hl, hr, Int.tdiv_neg, Int.tdiv_one]
    exact Kind.wrap_neg_minValue hk

/-- The least `i8` by -1, each stored with bits above the width of the kind missing. -/
theorem arithmetic_stores_least_i8 :
    (Value.ofBits 0x80).read .i8 = Kind.i8.minValue ∧ (Value.ofBits 0xff).read .i8 = -1 ∧
      ∃ x, (binary (.arithmetic .div) ⟨.ofBits 0x80, .i8⟩ ⟨.ofBits 0xff, .i8⟩).outcome = .ok x ∧
        x.Stores .i8 128 ∧ x.overflow = true ∧ x.value.read .i8 = -128 := by
  have hl : (Value.ofBits 0x80).read .i8 = Kind.i8.minValue := by decide
  have hr : (Value.ofBits 0xff).read .i8 = -1 := by decide
  obtain ⟨x, hx, hstores, hdiv⟩ := arithmetic_stores (k := .i8) (l := .ofBits 0x80)
    (r := .ofBits 0xff) rfl (by decide : Arithmetic.div ≠ .rem) rfl fun _ => by rw [hr]; decide
  obtain ⟨hflag, hvalue⟩ := hdiv rfl
  have hexact : truncate (Arithmetic.rational .div ((Value.ofBits 0x80).read .i8)
      ((Value.ofBits 0xff).read .i8)) = 128 := by
    rw [← Arithmetic.exact_eq_truncate]
    decide
  rw [hexact] at hstores
  have ho := hflag.mpr ⟨rfl, hl, hr⟩
  exact ⟨hl, hr, x, hx, hstores, ho, hvalue ho⟩

end Evaluate
end ScalarEval
