import Mathlib
import ScalarEval.Proofs.Division
import ScalarEval.Proofs.Reading

/-! The bitwise operators as one Boolean algebra. Complement reads an integer and stores another,
while the binary operators act on words as they are. On canonical words either acts on each bit
within the width of a kind alone, so that the Boolean identities hold for them, and no others. -/
namespace ScalarEval

namespace Bitwise

/-- The operator on single bits. -/
def onBools : Bitwise → Bool → Bool → Bool
  | or => (· || ·)
  | and => (· && ·)
  | xor => (· ^^ ·)

/-- The operator on integers in two's complement. -/
def onIntegers : Bitwise → ℤ → ℤ → ℤ
  | or => Int.lor
  | and => Int.land
  | xor => Int.xor

theorem getLsbD_onWords (op : Bitwise) (l r : BitVec 64) (i : ℕ) :
    (op.onWords l r).getLsbD i = op.onBools (l.getLsbD i) (r.getLsbD i) := by
  cases op <;> simp [onWords, onBools]

theorem msb_onWords (op : Bitwise) (l r : BitVec 64) :
    (op.onWords l r).msb = op.onBools l.msb r.msb := by
  cases op <;> simp [onWords, onBools]

theorem onBools_false (op : Bitwise) : op.onBools false false = false := by
  cases op <;> rfl

theorem testBit_onIntegers (op : Bitwise) (a b : ℤ) (i : ℕ) :
    (op.onIntegers a b).testBit i = op.onBools (a.testBit i) (b.testBit i) := by
  cases op with
  | or => exact Int.testBit_lor a b i
  | and => exact Int.testBit_land a b i
  | xor => exact Int.testBit_lxor a b i

end Bitwise

/-- A negative integer has ones where an integer that is not has zeros, from some bit on. -/
theorem exists_testBit_ne (m n : ℕ) : ∃ i, (m : ℤ).testBit i ≠ (Int.negSucc n).testBit i := by
  have hm : m < 2 ^ (m + n) :=
    Nat.lt_two_pow_self.trans_le (Nat.pow_le_pow_right (by norm_num) (Nat.le_add_right m n))
  have hn : n < 2 ^ (m + n) :=
    Nat.lt_two_pow_self.trans_le (Nat.pow_le_pow_right (by norm_num) (Nat.le_add_left n m))
  refine ⟨m + n, ?_⟩
  simp [Int.testBit, Nat.testBit_eq_false_of_lt hm, Nat.testBit_eq_false_of_lt hn]

theorem int_eq_of_testBit_eq {a b : ℤ} (h : ∀ i, a.testBit i = b.testBit i) : a = b := by
  cases a with
  | ofNat m =>
    cases b with
    | ofNat n => exact congrArg _ (Nat.eq_of_testBit_eq h)
    | negSucc n =>
      obtain ⟨i, hi⟩ := exists_testBit_ne m n
      exact absurd (h i) hi
  | negSucc m =>
    cases b with
    | ofNat n =>
      obtain ⟨i, hi⟩ := exists_testBit_ne n m
      exact absurd (h i).symm hi
    | negSucc n => exact congrArg _ (Nat.eq_of_testBit_eq fun i => Bool.not_inj (h i))

theorem testBit_toNat (w : BitVec 64) (i : ℕ) :
    (w.toNat : ℤ).testBit i = if i < 64 then w.getLsbD i else false := by
  change w.toNat.testBit i = _
  rw [BitVec.testBit_toNat]
  split_ifs with hi
  · rfl
  · exact w.getLsbD_of_ge i (not_lt.mp hi)

theorem testBit_toInt (w : BitVec 64) (i : ℕ) :
    w.toInt.testBit i = if i < 64 then w.getLsbD i else w.msb := by
  cases hw : w.msb with
  | false => rw [BitVec.toInt_eq_toNat_of_msb hw, testBit_toNat]
  | true =>
    have hint : w.toInt = Int.negSucc (~~~w).toNat := by
      rw [BitVec.msb_eq_decide, decide_eq_true_iff] at hw
      rw [BitVec.toInt_eq_toNat_cond, BitVec.toNat_not, Int.negSucc_eq]
      split_ifs <;> omega
    have hnot : (Int.negSucc (~~~w).toNat).testBit i = !((~~~w).toNat : ℤ).testBit i := rfl
    rw [hint, hnot, testBit_toNat]
    split_ifs with hi
    · simp [hi]
    · rfl

namespace Kind
variable {k : Kind} {w l r : BitVec 64}

/-- Integers continue the bits of their words by the sign. -/
theorem testBit_read (hk : k.isFloating = false) (hw : k.Canonical w) (i : ℕ) :
    ((Value.ofBits w).read k).testBit i =
      if i < 64 then w.getLsbD i else k.isSigned && w.msb := by
  cases hs : k.isSigned with
  | false => rw [read_eq_toNat hk hs hw, testBit_toNat, Bool.false_and]
  | true => rw [read_eq_toInt hk hs hw, testBit_toInt, Bool.true_and]

theorem read_onWords (hk : k.isFloating = false) (op : Bitwise) (hl : k.Canonical l)
    (hr : k.Canonical r) : (Value.ofBits (op.onWords l r)).read k =
      op.onIntegers ((Value.ofBits l).read k) ((Value.ofBits r).read k) := by
  apply int_eq_of_testBit_eq
  intro i
  rw [op.testBit_onIntegers, testBit_read hk (canonical_onWords op hl hr), testBit_read hk hl,
    testBit_read hk hr, op.getLsbD_onWords, op.msb_onWords]
  cases k.isSigned with
  | false =>
    simp only [Bool.false_and]
    split_ifs
    · rfl
    · exact op.onBools_false.symm
  | true =>
    simp only [Bool.true_and]
    split_ifs <;> rfl

theorem isFloating_eq_false_of_bitwise (hk : k.isInteger = true ∨ k = .bool) :
    k.isFloating = false := by
  rcases hk with hk | rfl
  · exact isFloating_eq_false hk
  · rfl

theorem canonical_extend_of_bitwise (hk : k.isInteger = true ∨ k = .bool) (n : ℤ) :
    k.Canonical (k.extend n) := by
  rcases hk with hk | rfl
  · exact canonical_extend hk n
  · change Kind.bool.Canonical (.ofInt 64 (n % 2))
    rcases Int.emod_two_eq n with h | h <;> rw [h] <;> decide

theorem extend_zero (k : Kind) : k.extend 0 = 0 := by
  cases k <;> decide

theorem extend_neg_one (k : Kind) : k.extend (-1) = k.extendLow (BitVec.allOnes 64) := by
  cases k <;> decide

/-- Canonical words have no bits but those of -1. -/
theorem and_ones (hk : k.isFloating = false) (hw : k.Canonical w) : w &&& k.extend (-1) = w := by
  have hlow := k.extendLow_onWords .and w (BitVec.allOnes 64)
  simp only [Bitwise.onWords, BitVec.and_allOnes] at hlow
  rw [extendLow_of_canonical hk hw] at hlow
  rw [extend_neg_one, ← hlow]

theorem extend_complement (hk : k.isFloating = false) (hw : k.Canonical w) :
    k.extend (-(Value.ofBits w).read k - 1) = w ^^^ k.extend (-1) := by
  have hnot : ((~~~w).toNat : ℤ) = 2 ^ 64 - 1 - w.toNat := by
    rw [BitVec.toNat_not]
    have := w.isLt
    omega
  have hmod : -(Value.ofBits w).read k - 1 ≡ (~~~w).toNat [ZMOD 2 ^ k.width] := by
    have hread : (2 : ℤ) ^ k.width ∣ w.toNat - (Value.ofBits w).read k :=
      ((Value.ofBits w).read_modEq k).dvd
    have hdifference : 2 ^ 64 - 1 - (w.toNat : ℤ) - (-(Value.ofBits w).read k - 1) =
        2 ^ 64 - (w.toNat - (Value.ofBits w).read k) := by ring
    rw [Int.modEq_iff_dvd, hnot, hdifference]
    exact dvd_sub k.modulus_dvd hread
  have hlow := k.extendLow_onWords .xor w (BitVec.allOnes 64)
  simp only [Bitwise.onWords, BitVec.xor_allOnes] at hlow
  rw [extendLow_of_canonical hk hw] at hlow
  rw [extend_congr hmod, ← extendLow_eq_extend, hlow, extend_neg_one]

end Kind

/-- Expressions of bitwise operators over operands of one kind. -/
inductive BitExpr (ι : Type) where
  | var (i : ι)
  | zero
  | ones
  | not (e : BitExpr ι)
  | op (b : Bitwise) (l r : BitExpr ι)

namespace BitExpr
variable {ι : Type} {k : Kind}

protected abbrev or (l r : BitExpr ι) : BitExpr ι := op .or l r

protected abbrev and (l r : BitExpr ι) : BitExpr ι := op .and l r

protected abbrev xor (l r : BitExpr ι) : BitExpr ι := op .xor l r

/-- Evaluation at a kind, one operator after the other. Variables are plain words. -/
def eval (k : Kind) (ρ : ι → BitVec 64) : BitExpr ι → Except Failure Value
  | var i => .ok (.ofBits (ρ i))
  | zero => .ok (.ofInt 0 k)
  | ones => .ok (.ofInt (-1) k)
  | not e => do (Evaluate.unary .not ⟨← e.eval k ρ, k⟩).outcome
  | op b l r => do
    let x ← l.eval k ρ
    let y ← r.eval k ρ
    return (← (Evaluate.binary (.bitwise b) ⟨x, k⟩ ⟨y, k⟩).outcome).value

/-- The expression as a Boolean function. -/
def truth (ρ : ι → Bool) : BitExpr ι → Bool
  | var i => ρ i
  | zero => false
  | ones => true
  | not e => !e.truth ρ
  | op b l r => b.onBools (l.truth ρ) (r.truth ρ)

/-- Both expressions evaluate, and to one value, whatever canonical words the variables are. -/
def Agree (k : Kind) (e e' : BitExpr ι) : Prop :=
  ∀ ρ : ι → BitVec 64, (∀ i, k.Canonical (ρ i)) →
    ∃ v, e.eval k ρ = .ok v ∧ e'.eval k ρ = .ok v

end BitExpr

namespace Evaluate
variable {k : Kind} {w : BitVec 64}

theorem outcome_not (hk : k.isInteger = true ∨ k = .bool) (hw : k.Canonical w) :
    (unary .not ⟨.ofBits w, k⟩).outcome = .ok (.ofBits (w ^^^ k.extend (-1))) := by
  rcases hk with hk | rfl
  · rw [outcome_complement hk, ← Kind.extend_complement (Kind.isFloating_eq_false hk) hw]
    rfl
  · rcases hw.bool rfl with rfl | rfl <;> decide

end Evaluate

namespace BitExpr
variable {ι : Type} {k : Kind} {ρ : ι → BitVec 64}

/-- The bits of a value within the width of the kind are those of a Boolean function, and there are
no others. -/
theorem eval_eq (hk : k.isInteger = true ∨ k = .bool) (hρ : ∀ i, k.Canonical (ρ i))
    (e : BitExpr ι) : ∃ w, e.eval k ρ = .ok (.ofBits w) ∧ k.Canonical w ∧
      ∀ j, w.getLsbD j = ((k.extend (-1)).getLsbD j && e.truth fun i => (ρ i).getLsbD j) := by
  have hones := Kind.canonical_extend_of_bitwise hk (-1)
  induction e with
  | var i =>
    refine ⟨ρ i, rfl, hρ i, fun j => ?_⟩
    conv_lhs => rw [← Kind.and_ones (Kind.isFloating_eq_false_of_bitwise hk) (hρ i)]
    rw [BitVec.getLsbD_and, Bool.and_comm]
    rfl
  | zero =>
    refine ⟨k.extend 0, rfl, Kind.canonical_extend_of_bitwise hk 0, fun j => ?_⟩
    rw [k.extend_zero, truth, Bool.and_false]
    exact BitVec.getLsbD_zero
  | ones => exact ⟨k.extend (-1), rfl, hones, fun j => (Bool.and_true _).symm⟩
  | not e ih =>
    obtain ⟨w, hw, hcanonical, hbits⟩ := ih
    refine ⟨w ^^^ k.extend (-1), ?_, Kind.canonical_onWords .xor hcanonical hones, fun j => ?_⟩
    · rw [← Evaluate.outcome_not hk hcanonical]
      simp only [eval, hw]
      rfl
    · rw [BitVec.getLsbD_xor, hbits, truth]
      cases (k.extend (-1)).getLsbD j <;> simp
  | op b l r ihl ihr =>
    obtain ⟨v, hv, hcanonical, hbits⟩ := ihl
    obtain ⟨w, hw, hcanonical', hbits'⟩ := ihr
    refine ⟨b.onWords v w, ?_, Kind.canonical_onWords b hcanonical hcanonical', fun j => ?_⟩
    · simp only [eval, hv, hw]
      change ((Evaluate.onPlain (.bitwise b) k v w).outcome >>= _) = _
      rw [Evaluate.outcome_bitwise]
      rfl
    · rw [b.getLsbD_onWords, hbits, hbits', truth]
      cases (k.extend (-1)).getLsbD j with
      | false => exact b.onBools_false
      | true => rfl

/-- The identities of bitwise operators are those of Boolean functions. -/
theorem agree_iff (hk : k.isInteger = true ∨ k = .bool) (e e' : BitExpr ι) :
    e.Agree k e' ↔ ∀ ρ : ι → Bool, e.truth ρ = e'.truth ρ := by
  constructor
  · intro h ρ
    -- Variables that are all zeros or all ones leave the truth values in the last bits.
    have hlast (b : Bool) : (k.extend (if b then -1 else 0)).getLsbD 0 = b := by
      cases k <;> cases b <;> decide
    have hcanonical (i : ι) := Kind.canonical_extend_of_bitwise hk (if ρ i then -1 else 0)
    obtain ⟨w, hw, -, hbits⟩ := eval_eq hk hcanonical e
    obtain ⟨w', hw', -, hbits'⟩ := eval_eq hk hcanonical e'
    obtain ⟨v, hv, hv'⟩ := h _ hcanonical
    have hsame : w = w' := by
      rw [hw] at hv
      rw [hw'] at hv'
      exact Value.ofBits_inj.mp (Except.ok.inj (hv.trans hv'.symm))
    have htruth := hbits 0
    rw [hsame, hbits' 0] at htruth
    simp only [hlast] at htruth
    have hone : (k.extend (-1)).getLsbD 0 = true := hlast true
    rw [hone, Bool.true_and, Bool.true_and] at htruth
    exact htruth.symm
  · intro h ρ hρ
    obtain ⟨w, hw, -, hbits⟩ := eval_eq hk hρ e
    obtain ⟨w', hw', -, hbits'⟩ := eval_eq hk hρ e'
    have hsame : w = w' := BitVec.eq_of_getLsbD_eq fun j _ => by rw [hbits, hbits', h]
    exact ⟨.ofBits w, hw, hsame ▸ hw'⟩

end BitExpr

namespace Evaluate
variable {k : Kind}

/-- The identities of bitwise operators at a kind, and what the operators are on integers. -/
structure BitwiseLaws (k : Kind) : Prop where
  not_not (ι : Type) (x : BitExpr ι) : x.not.not.Agree k x
  not_eq_xor (ι : Type) (x : BitExpr ι) : x.not.Agree k (x.xor .ones)
  not_or (ι : Type) (x y : BitExpr ι) : (x.or y).not.Agree k (x.not.and y.not)
  not_and (ι : Type) (x y : BitExpr ι) : (x.and y).not.Agree k (x.not.or y.not)
  and_not (ι : Type) (x : BitExpr ι) : (x.and x.not).Agree k .zero
  or_not (ι : Type) (x : BitExpr ι) : (x.or x.not).Agree k .ones
  and_or (ι : Type) (x y z : BitExpr ι) : (x.and (y.or z)).Agree k ((x.and y).or (x.and z))
  or_and (ι : Type) (x y z : BitExpr ι) : (x.or (y.and z)).Agree k ((x.or y).and (x.or z))
  xor_eq (ι : Type) (x y : BitExpr ι) : (x.xor y).Agree k ((x.and y.not).or (x.not.and y))
  agree_iff (ι : Type) (e e' : BitExpr ι) : e.Agree k e' ↔ ∀ ρ : ι → Bool, e.truth ρ = e'.truth ρ
  ones_bool : k = .bool → Value.ofInt (-1) k = .ofBool true
  read (op : Bitwise) (l r : BitVec 64) : k.Canonical l → k.Canonical r → ∃ w,
    (onPlain (.bitwise op) k l r).outcome = .ok ⟨.ofBits w, false⟩ ∧
      (Value.ofBits w).read k =
        op.onIntegers ((Value.ofBits l).read k) ((Value.ofBits r).read k)

theorem bitwiseLaws (hk : k.isInteger = true ∨ k = .bool) : BitwiseLaws k where
  not_not _ _ := (BitExpr.agree_iff hk _ _).mpr fun _ => Bool.not_not _
  not_eq_xor _ _ := (BitExpr.agree_iff hk _ _).mpr fun _ => (Bool.xor_true _).symm
  not_or _ _ _ := (BitExpr.agree_iff hk _ _).mpr fun _ => Bool.not_or _ _
  not_and _ _ _ := (BitExpr.agree_iff hk _ _).mpr fun _ => Bool.not_and _ _
  and_not _ _ := (BitExpr.agree_iff hk _ _).mpr fun _ => Bool.and_not_self _
  or_not _ _ := (BitExpr.agree_iff hk _ _).mpr fun _ => Bool.or_not_self _
  and_or _ _ _ _ := (BitExpr.agree_iff hk _ _).mpr fun _ => Bool.and_or_distrib_left _ _ _
  or_and _ _ _ _ := (BitExpr.agree_iff hk _ _).mpr fun _ => Bool.or_and_distrib_left _ _ _
  xor_eq _ x y := (BitExpr.agree_iff hk _ _).mpr fun ρ => by
    simp only [BitExpr.truth, Bitwise.onBools]
    cases x.truth ρ <;> cases y.truth ρ <;> rfl
  agree_iff _ := BitExpr.agree_iff hk
  ones_bool h := by
    subst h
    decide
  read op l r hl hr := ⟨op.onWords l r, outcome_bitwise op k l r,
    Kind.read_onWords (Kind.isFloating_eq_false_of_bitwise hk) op hl hr⟩

/-- The negative operand is continued by ones. -/
theorem bitwiseLaws_i8 :
    (Kind.i8.isInteger = true ∨ Kind.i8 = .bool) ∧ (Value.ofBits (-6)).read .i8 = -6 ∧
      ∃ w, (onPlain (.bitwise .and) .i8 (-6) 13).outcome = .ok ⟨.ofBits w, false⟩ ∧
        (Value.ofBits w).read .i8 = 8 := by
  have hl : (Value.ofBits (-6)).read .i8 = -6 := by decide
  have hr : (Value.ofBits 13).read .i8 = 13 := by decide
  obtain ⟨w, hw, hread⟩ :=
    (bitwiseLaws (k := .i8) (.inl rfl)).read .and (-6) 13 (by decide) (by decide)
  have hbits : Bitwise.and.onIntegers (-6) 13 = 8 := by decide +kernel
  rw [hl, hr, hbits] at hread
  exact ⟨.inl rfl, hl, w, hw, hread⟩

end Evaluate
end ScalarEval
