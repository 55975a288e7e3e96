import Mathlib
import ScalarEval.Proofs.Division

/-! Shifts as arithmetic. An amount counts modulo the width of the left kind; by it a shift to the
left is a product and a shift to the right a quotient rounded down. -/
namespace ScalarEval

namespace Kind
variable {k : Kind} {a d : ℤ}

/-- A quotient by a positive integer, rounded down, lies between the dividend and zero. -/
theorem fits_ediv (ha : k.fits a = true) (hd : 0 < d) : k.fits (a / d) = true := by
  have hzero : k.minValue ≤ 0 ∧ 0 ≤ k.maxValue := by cases k <;> decide
  rw [fits_iff] at ha ⊢
  rcases le_or_gt 0 a with h | h
  · have hlow := Int.ediv_nonneg h hd.le
    have hhigh := Int.ediv_le_self d h
    omega
  · have hhigh := Int.ediv_neg_of_neg_of_pos h hd
    have hlow : a ≤ a / d := by
      rw [Int.le_ediv_iff_mul_le hd]
      nlinarith
    omega

end Kind

/-- The same word in an allocation, or as plain data. -/
def Value.inAlloc (v : Value) (a : Option AllocId) : Value :=
  ⟨v.bits, a⟩

@[simp] theorem Value.read_inAlloc (v : Value) (a : Option AllocId) (k : Kind) :
    (v.inAlloc a).read k = v.read k := rfl

/-- The number of places by which a value shifts the values of a kind. -/
def Kind.amount (k : Kind) (v : Value) : ℕ :=
  v.bits.toNat % k.width

/-- What shifts at a kind `k` on the left and `j` on the right compute, and how they agree with
products and quotients. All values that stand for `r` lie where `r` does: a pointer takes no plain
data beside it. -/
structure ShiftLaws (k j : Kind) (l r : Value) : Prop where
  left : ∃ v, (Evaluate.binary (.shift .left) ⟨l, k⟩ ⟨r, j⟩).outcome = .ok ⟨v, false⟩ ∧
    k.Canonical v.bits ∧ v.alloc = none ∧ v.read k = k.wrap (l.read k * 2 ^ k.amount r)
  right : ∃ v, (Evaluate.binary (.shift .right) ⟨l, k⟩ ⟨r, j⟩).outcome = .ok ⟨v, false⟩ ∧
    k.Canonical v.bits ∧ v.alloc = none ∧ v.read k = ⌊(l.read k : ℚ) / 2 ^ k.amount r⌋ ∧
    k.fits ⌊(l.read k : ℚ) / 2 ^ k.amount r⌋ = true
  amount (op : Shift) (i : Kind) : Evaluate.binary (.shift op) ⟨l, k⟩ ⟨r, j⟩ =
    Evaluate.binary (.shift op) ⟨l, k⟩
      ⟨(Value.ofBits (.ofNat 64 (k.amount r))).inAlloc r.alloc, i⟩
  left_eq_mul : ∃ v overflow,
    (Evaluate.binary (.shift .left) ⟨l, k⟩ ⟨r, j⟩).outcome = .ok ⟨v, false⟩ ∧
    (Evaluate.binary (.arithmetic .mul) ⟨l, k⟩
      ⟨(Value.ofInt (2 ^ k.amount r) k).inAlloc r.alloc, k⟩).outcome = .ok ⟨v, overflow⟩
  right_div : k.fits (2 ^ k.amount r) = true → ∃ v d overflow,
    (Evaluate.binary (.shift .right) ⟨l, k⟩ ⟨r, j⟩).outcome = .ok ⟨v, false⟩ ∧
    (Evaluate.binary (.arithmetic .div) ⟨l, k⟩
      ⟨(Value.ofInt (2 ^ k.amount r) k).inAlloc r.alloc, k⟩).outcome = .ok ⟨d, overflow⟩ ∧
    (0 ≤ l.read k ∨ 2 ^ k.amount r ∣ l.read k → v = d) ∧
    (¬ (0 ≤ l.read k ∨ 2 ^ k.amount r ∣ l.read k) → v.read k = d.read k - 1)
  plain : r.isPointer = true → ∀ op : BinaryOp, op.isComparison = false → ∀ (w : BitVec 64) (i : Kind),
    (Evaluate.binary op ⟨l, k⟩ ⟨.ofBits w, i⟩).ending = .error .readPointerAsBytes

namespace Evaluate
variable {k : Kind} {l r : Value}

theorem floor_div_two_pow (x : ℤ) (n : ℕ) : ⌊(x : ℚ) / 2 ^ n⌋ = x / 2 ^ n := by
  have h := Rat.floor_intCast_div_natCast x (2 ^ n)
  push_cast at h
  exact h

theorem outcome_shift_left (hk : k.isInteger = true) (h : l.alloc = r.alloc) (j : Kind) :
    (binary (.shift .left) ⟨l, k⟩ ⟨r, j⟩).outcome =
      .ok ⟨.ofInt (l.read k * 2 ^ k.amount r) k, false⟩ :=
  outcome_shift hk .left h j

theorem outcome_shift_right (hk : k.isInteger = true) (h : l.alloc = r.alloc) (j : Kind) :
    (binary (.shift .right) ⟨l, k⟩ ⟨r, j⟩).outcome =
      .ok ⟨.ofInt (l.read k / 2 ^ k.amount r) k, false⟩ :=
  outcome_shift hk .right h j

/-- The amount is all that a shift reads of its right operand, besides the allocation. -/
theorem shift_amount (h : l.alloc = r.alloc) (op : Shift) (i j : Kind) :
    binary (.shift op) ⟨l, k⟩ ⟨r, j⟩ =
      binary (.shift op) ⟨l, k⟩ ⟨(Value.ofBits (.ofNat 64 (k.amount r))).inAlloc r.alloc, i⟩ := by
  have hlt : k.amount r < k.width := Nat.mod_lt _ k.width_pos
  have hword : (BitVec.ofNat 64 (k.amount r)).toNat = k.amount r := by
    have := k.width_le
    rw [BitVec.toNat_ofNat]
    exact Nat.mod_eq_of_lt (by omega)
  simp only [binary, h, Value.inAlloc, Value.ofBits, ne_eq, not_true_eq_false, if_false, shift,
    hword, Nat.mod_eq_of_lt hlt]
  rfl

theorem outcome_mul_two_pow (hk : k.isInteger = true) (h : l.alloc = r.alloc) (n : ℕ) :
    ∃ overflow, (binary (.arithmetic .mul) ⟨l, k⟩
      ⟨(Value.ofInt (2 ^ n) k).inAlloc r.alloc, k⟩).outcome =
        .ok ⟨.ofInt (l.read k * 2 ^ n) k, overflow⟩ := by
  have ho := outcome_arithmetic hk .mul (r := (Value.ofInt (2 ^ n) k).inAlloc r.alloc) h
    fun hd => by cases hd.1
  have hstored : Value.ofInt (l.read k * k.wrap (2 ^ n)) k = Value.ofInt (l.read k * 2 ^ n) k :=
    congrArg Value.ofBits (Kind.extend_congr ((k.wrap_modEq _).mul_left _))
  rw [Value.read_inAlloc, Value.read_ofInt] at ho
  simp only [Arithmetic.exact, hstored] at ho
  exact ⟨_, ho⟩

theorem outcome_div_two_pow (hk : k.isInteger = true) (h : l.alloc = r.alloc) {n : ℕ}
    (hn : k.fits (2 ^ n) = true) :
    ∃ overflow, (binary (.arithmetic .div) ⟨l, k⟩
      ⟨(Value.ofInt (2 ^ n) k).inAlloc r.alloc, k⟩).outcome =
        .ok ⟨.ofInt ((l.read k).tdiv (2 ^ n)) k, overflow⟩ := by
  have hread : ((Value.ofInt (2 ^ n) k).inAlloc r.alloc).read k = 2 ^ n := by
    rw [Value.read_inAlloc, Value.read_ofInt, Kind.wrap_eq_of_fits hn]
  have ho := outcome_arithmetic hk .div (r := (Value.ofInt (2 ^ n) k).inAlloc r.alloc) h
    fun hz => by
      have hpos : (0 : ℤ) < 2 ^ n := by positivity
      omega
  rw [hread] at ho
  exact ⟨_, ho⟩

/-- A quotient by a power of two fits, rounded down as well as rounded toward zero. -/
theorem fits_div_two_pow (hk : k.isInteger = true) (v : Value) {n : ℕ}
    (hn : k.fits (2 ^ n) = true) : k.fits ((v.read k).tdiv (2 ^ n)) = true := by
  have hpos : (0 : ℤ) < 2 ^ n := by positivity
  by_contra hfits
  have hover := (Kind.fits_tdiv_eq_false_iff hk (v.fits_read k) hn hpos.ne').mp
    (Bool.eq_false_of_not_eq_true hfits)
  omega

/-- Rounding down and rounding toward zero differ by one, below zero where the division is not
exact. -/
theorem shift_right_div (hk : k.isInteger = true) (h : l.alloc = r.alloc) (j : Kind)
    (hn : k.fits (2 ^ k.amount r) = true) : ∃ v d overflow,
    (binary (.shift .right) ⟨l, k⟩ ⟨r, j⟩).outcome = .ok ⟨v, false⟩ ∧
    (binary (.arithmetic .div) ⟨l, k⟩
      ⟨(Value.ofInt (2 ^ k.amount r) k).inAlloc r.alloc, k⟩).outcome = .ok ⟨d, overflow⟩ ∧
    (0 ≤ l.read k ∨ 2 ^ k.amount r ∣ l.read k → v = d) ∧
    (¬ (0 ≤ l.read k ∨ 2 ^ k.amount r ∣ l.read k) → v.read k = d.read k - 1) := by
  obtain ⟨overflow, hdiv⟩ := outcome_div_two_pow (r := r) hk h hn
  have hpos : (0 : ℤ) < 2 ^ k.amount r := by positivity
  have hround := Int.tdiv_eq_ediv (a := l.read k) (b := 2 ^ k.amount r)
  rw [Int.sign_eq_one_of_pos hpos] at hround
  refine ⟨_, _, overflow, outcome_shift_right hk h j, hdiv, fun hexact => ?_, fun hexact => ?_⟩
  · rw [if_pos hexact, add_zero] at hround
    rw [hround]
  · rw [if_neg hexact] at hround
    rw [Value.read_ofInt, Value.read_ofInt, Kind.wrap_eq_of_fits (fits_div_two_pow hk l hn),
      Kind.wrap_eq_of_fits (Kind.fits_ediv (l.fits_read k) hpos)]
    omega

/-- Shifts at integer kinds, by a right operand of any kind. -/
theorem shift_laws (hk : k.isInteger = true) (h : l.alloc = r.alloc) (j : Kind) :
    ShiftLaws k j l r where
  left := by
    refine ⟨_, outcome_shift_left hk h j, Kind.canonical_extend hk _, rfl, ?_⟩
    exact Value.read_ofInt _ k
  right := by
    have hfits : k.fits (l.read k / 2 ^ k.amount r) = true :=
      Kind.fits_ediv (l.fits_read k) (by positivity)
    rw [floor_div_two_pow]
    refine ⟨_, outcome_shift_right hk h j, Kind.canonical_extend hk _, rfl, ?_, hfits⟩
    rw [Value.read_ofInt, Kind.wrap_eq_of_fits hfits]
  amount op i := shift_amount h op i j
  left_eq_mul := by
    obtain ⟨overflow, hmul⟩ := outcome_mul_two_pow (r := r) hk h (k.amount r)
    exact ⟨_, overflow, outcome_shift_left hk h j, hmul⟩
  right_div := shift_right_div hk h j
  plain hr op hop w i := by
    have hl : l.isPointer = true := (congrArg Option.isSome h).trans hr
    exact ending_binary_mixed hop (by rw [hl]; exact Bool.false_ne_true.symm)

/-- The amount -3 is 5 at `i8`, and -111 / 32 is rounded down to -4. -/
theorem shift_laws_negative_i8 :
    ShiftLaws .i8 .f64 (.ofBits 0x91) (.ofBits (-3)) ∧ Kind.i8.amount (.ofBits (-3)) = 5 ∧
      ∃ v, (binary (.shift .right) ⟨.ofBits 0x91, .i8⟩ ⟨.ofBits (-3), .f64⟩).outcome =
        .ok ⟨v, false⟩ ∧ v.read .i8 = -4 := by
  have hlaws := shift_laws (k := .i8) (l := .ofBits 0x91) (r := .ofBits (-3)) rfl rfl .f64
  have hamount : Kind.i8.amount (.ofBits (-3)) = 5 := by decide
  have hread : (Value.ofBits 0x91).read .i8 = -111 := by decide
  obtain ⟨v, hv, -, -, hvalue, -⟩ := hlaws.right
  rw [hamount, hread, floor_div_two_pow] at hvalue
  exact ⟨hlaws, hamount, v, hv, hvalue⟩

/-- A pointer is shifted by an offset into its own allocation, but not by the same amount as plain
data, and it is not multiplied by the power of two. -/
theorem pointer_by_plain_amount :
    (binary (.shift .left) ⟨⟨1, some (.number 1)⟩, .u8⟩ ⟨⟨1, some (.number 1)⟩, .u8⟩).outcome =
        .ok ⟨.ofBits 2, false⟩ ∧
      Kind.u8.amount ⟨1, some (.number 1)⟩ = 1 ∧
      (binary (.shift .left) ⟨⟨1, some (.number 1)⟩, .u8⟩ ⟨.ofBits 1, .u8⟩).outcome =
        .error (.evaluation .pointerAsData) ∧
      (binary (.arithmetic .mul) ⟨⟨1, some (.number 1)⟩, .u8⟩ ⟨.ofInt (2 ^ 1) .u8, .u8⟩).outcome =
        .error (.evaluation .pointerAsData) := by
  refine ⟨?_, ?_, ?_, ?_⟩ <;> decide +kernel

end Evaluate
end ScalarEval
