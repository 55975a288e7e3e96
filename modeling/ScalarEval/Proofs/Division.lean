import Mathlib
import ScalarEval.Proofs.ExactWidth

/-! Division and remainder at integer kinds. They are stopped together and overflow together, and
quotient, divisor and remainder give the dividend back, also where the quotient was wrapped. -/
namespace ScalarEval

namespace Kind
variable {k : Kind} {a b : ℤ}

theorem extend_congr (h : a ≡ b [ZMOD 2 ^ k.width]) : k.extend a = k.extend b :=
  congrArg (BitVec.ofInt 64) (wrap_congr h)

/-- A remainder lies between zero and the dividend. -/
theorem fits_tmod (ha : k.fits a = true) (b : ℤ) : k.fits (a.tmod b) = true := by
  have hle : (a.tmod b).natAbs ≤ a.natAbs := by
    rw [Int.natAbs_tmod]
    exact Nat.mod_le _ _
  have hzero : k.minValue ≤ 0 ∧ 0 ≤ k.maxValue := by cases k <;> decide
  rw [fits_iff] at ha ⊢
  rcases le_total 0 a with h | h
  · have := Int.tmod_nonneg b h
    omega
  · have := Int.tmod_nonneg b (Int.neg_nonneg_of_nonpos h)
    rw [Int.neg_tmod] at this
    omega

end Kind

/-- What a quotient rounded toward zero leaves of the dividend. -/
structure IsRemainder (a b m : ℤ) : Prop where
  eq : m = a - b * truncate (a / b)
  abs_lt : |m| < |b|
  sign : m = 0 ∨ m.sign = a.sign

theorem isRemainder_tmod (a : ℤ) {b : ℤ} (hb : b ≠ 0) : IsRemainder a b (a.tmod b) where
  eq := by rw [truncate_div, Int.tmod_def]
  abs_lt := by
    rw [Int.abs_eq_natAbs, Int.abs_eq_natAbs, Int.natAbs_tmod]
    exact_mod_cast Nat.mod_lt _ (Int.natAbs_pos.mpr hb)
  sign := by
    have hsign := Int.sign_tmod a b
    split_ifs at hsign with hdvd
    · exact .inl (Int.sign_eq_zero_iff_zero.mp hsign)
    · exact .inr hsign

namespace Evaluate
variable {k : Kind} {l r : Value}

theorem ending_divides_iff (hk : k.isInteger = true) (h : l.alloc = r.alloc) {op : Arithmetic}
    (hop : op.divides = true) :
    (binary (.arithmetic op) ⟨l, k⟩ ⟨r, k⟩).ending = .error .divisionByZero ↔ r.read k = 0 := by
  rw [ending_eq_divisionByZero_iff hk op h, hop, eq_self, true_and]

/-- The product of quotient and divisor, with the remainder added, is the dividend as its kind
stores it. All operands are plain data, as quotients and remainders are. -/
def Restores (k : Kind) (l r quotient remainder : Value) : Prop :=
  ∃ p s, (binary (.arithmetic .mul) ⟨quotient, k⟩ ⟨.ofBits r.bits, k⟩).outcome = .ok p ∧
    (binary (.arithmetic .add) ⟨p.value, k⟩ ⟨remainder, k⟩).outcome = .ok s ∧
    s.value = .ofBits (k.extendLow l.bits)

theorem restores_ofInt (hk : k.isInteger = true) (l r : Value) :
    Restores k l r (.ofInt ((l.read k).tdiv (r.read k)) k)
      (.ofInt ((l.read k).tmod (r.read k)) k) := by
  have hmul := outcome_arithmetic hk .mul (l := .ofInt ((l.read k).tdiv (r.read k)) k)
    (r := .ofBits r.bits) rfl fun h => by cases h.1
  have hadd := outcome_arithmetic hk .add
    (l := .ofInt ((Value.ofInt ((l.read k).tdiv (r.read k)) k).read k * r.read k) k)
    (r := .ofInt ((l.read k).tmod (r.read k)) k) rfl fun h => by cases h.1
  refine ⟨_, _, hmul, hadd, congrArg Value.ofBits ?_⟩
  rw [Kind.extendLow_eq_extend]
  apply Kind.extend_congr
  simp only [Arithmetic.exact, Value.read_ofInt]
  -- Wrapping at every step keeps the sum of product and remainder congruent.
  calc
    k.wrap (k.wrap ((l.read k).tdiv (r.read k)) * r.read k) + k.wrap ((l.read k).tmod (r.read k))
      ≡ (l.read k).tdiv (r.read k) * r.read k + (l.read k).tmod (r.read k) [ZMOD 2 ^ k.width] :=
        ((k.wrap_modEq _).trans ((k.wrap_modEq _).mul_right _)).add (k.wrap_modEq _)
    _ = l.read k := by rw [mul_comm, Int.mul_tdiv_add_tmod]
    _ ≡ l.bits.toNat [ZMOD 2 ^ k.width] := l.read_modEq k

/-- Division and remainder are stopped by the same divisors and agree on overflow. Together they
give the dividend back, and the remainder is never wrapped. A genuine pointer as the divisor is
not restored from itself: a quotient is plain data and has no product with a pointer. -/
theorem division_laws (hk : k.isInteger = true) (h : l.alloc = r.alloc) :
    (∀ op : Arithmetic, op.divides = true →
      ((binary (.arithmetic op) ⟨l, k⟩ ⟨r, k⟩).ending = .error .divisionByZero ↔
        r.read k = 0)) ∧
    (r.read k ≠ 0 → ∃ q m overflow,
      (binary (.arithmetic .div) ⟨l, k⟩ ⟨r, k⟩).outcome = .ok ⟨q, overflow⟩ ∧
      (binary (.arithmetic .rem) ⟨l, k⟩ ⟨r, k⟩).outcome = .ok ⟨m, overflow⟩ ∧
      Restores k l r q m ∧ IsRemainder (l.read k) (r.read k) (m.read k) ∧
      (r.isPointer = true →
        (binary (.arithmetic .mul) ⟨q, k⟩ ⟨r, k⟩).ending = .error .readPointerAsBytes)) := by
  refine ⟨fun op => ending_divides_iff hk h, fun hz => ?_⟩
  have hdiv := outcome_arithmetic hk .div h fun hr => hz hr.2
  have hrem := outcome_arithmetic hk .rem h fun hr => hz hr.2
  refine ⟨_, _, _, hdiv, hrem, restores_ofInt hk l r, ?_, fun hr => ?_⟩
  case refine_2 =>
    exact ending_binary_mixed rfl (by rw [hr]; exact Bool.false_ne_true)
  have hread : (Value.ofInt ((l.read k).tmod (r.read k)) k).read k =
      (l.read k).tmod (r.read k) := by
    rw [Value.read_ofInt, Kind.wrap_eq_of_fits (Kind.fits_tmod (l.fits_read k) _)]
  simp only [Arithmetic.exact, hread]
  exact isRemainder_tmod _ hz

/-- The least `i8` by -1, each with bits beside the width of the kind. -/
theorem division_laws_least_i8 :
    (Value.ofBits 0x180).read .i8 = -128 ∧ (Value.ofBits 0x2ff).read .i8 = -1 ∧ ∃ q m,
      (binary (.arithmetic .div) ⟨.ofBits 0x180, .i8⟩ ⟨.ofBits 0x2ff, .i8⟩).outcome = .ok ⟨q, true⟩ ∧
      (binary (.arithmetic .rem) ⟨.ofBits 0x180, .i8⟩ ⟨.ofBits 0x2ff, .i8⟩).outcome = .ok ⟨m, true⟩ ∧
      Restores .i8 (.ofBits 0x180) (.ofBits 0x2ff) q m ∧ IsRemainder (-128) (-1) (m.read .i8) := by
  have hl : (Value.ofBits 0x180).read .i8 = -128 := by decide
  have hr : (Value.ofBits 0x2ff).read .i8 = -1 := by decide
  have hflag : (binary (.arithmetic .div) ⟨.ofBits 0x180, .i8⟩ ⟨.ofBits 0x2ff, .i8⟩).outcome =
      .ok ⟨.ofInt (-128) .i8, true⟩ := by decide +kernel
  obtain ⟨q, m, overflow, hdiv, hrem, hrestores, hremainder, -⟩ :=
    (division_laws (k := .i8) (l := .ofBits 0x180) (r := .ofBits 0x2ff) rfl rfl).2
      (by rw [hr]; decide)
  obtain rfl : overflow = true := congrArg Result.overflow (Except.ok.inj (hdiv.symm.trans hflag))
  rw [hl, hr] at hremainder
  exact ⟨hl, hr, q, m, hdiv, hrem, hrestores, hremainder⟩

/-- Offsets into one allocation are divided at `u64`, but the quotient is not multiplied by an
offset. -/
theorem quotient_times_pointer :
    (binary (.arithmetic .div) ⟨⟨7, some (.number 1)⟩, .u64⟩ ⟨⟨2, some (.number 1)⟩, .u64⟩).outcome =
        .ok ⟨.ofBits 3, false⟩ ∧
      (binary (.arithmetic .rem) ⟨⟨7, some (.number 1)⟩, .u64⟩
        ⟨⟨2, some (.number 1)⟩, .u64⟩).outcome = .ok ⟨.ofBits 1, false⟩ ∧
      (binary (.arithmetic .mul) ⟨.ofBits 3, .u64⟩ ⟨⟨2, some (.number 1)⟩, .u64⟩).outcome =
        .error (.evaluation .pointerAsData) := by
  refine ⟨?_, ?_, ?_⟩ <;> decide +kernel

end Evaluate
end ScalarEval
