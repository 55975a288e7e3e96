import Mathlib
import ScalarEval.Proofs.FloatArithmetic
import ScalarEval.Proofs.LowBits

/-! Sign symmetry of the floating operators. Negation only toggles a bit of the word, and yet it can
be moved through operators that decode, round and encode again, with signs of zeros and the division
by them included. Which NaN results is not told apart. -/
namespace ScalarEval

open Ieee (binary32 binary64)
open Ieee.Format

namespace Evaluate
variable {k : Kind} {F : Ieee.Format}

theorem negated_f32 (w : BitVec 64) :
    (w &&& 0xffffffff) ^^^ 0x80000000 = .ofNat 64 (binary32.neg w.toNat) := by
  have hwidth : 2 * binary32.signBit = 2 ^ 32 := by decide
  have hxor : (w.toNat % 2 ^ 32) ^^^ binary32.signBit = binary32.neg w.toNat := by
    rw [xor_signBit hwidth (Nat.mod_lt _ (Nat.two_pow_pos 32)), ← hwidth, neg_mod]
  have hlt : binary32.neg w.toNat < 2 ^ 64 := (binary32.neg_lt _).trans (by decide)
  apply BitVec.eq_of_toNat_eq
  rw [BitVec.toNat_xor, Kind.toNat_mask, BitVec.toNat_ofNat, Nat.mod_eq_of_lt hlt]
  exact hxor

theorem negated_f64 (w : BitVec 64) :
    w ^^^ 0x8000000000000000 = .ofNat 64 (binary64.neg w.toNat) := by
  have hwidth : 2 * binary64.signBit = 2 ^ 64 := by decide
  have hlt : binary64.neg w.toNat < 2 ^ 64 := (binary64.neg_lt _).trans_eq hwidth
  apply BitVec.eq_of_toNat_eq
  rw [BitVec.toNat_xor, BitVec.toNat_ofNat, Nat.mod_eq_of_lt hlt]
  exact xor_signBit hwidth w.isLt

/-- Negation of a word negates the pattern that is read of it. -/
theorem outcome_neg_floating (hk : k.format? = some F) (v : Value) :
    (unary .neg ⟨v, k⟩).outcome = .ok (.ofBits (.ofNat 64 (F.neg v.bits.toNat))) := by
  obtain ⟨rfl, rfl⟩ | ⟨rfl, rfl⟩ := Kind.format?_eq_some_iff.mp hk
  · rw [← negated_f32]
    rfl
  · rw [← negated_f64]
    rfl

/-- Operators applied to plain words, and to what other operators give. -/
inductive FloatTerm where
  | word (w : BitVec 64)
  | neg (t : FloatTerm)
  | arithmetic (op : Arithmetic) (l r : FloatTerm)

namespace FloatTerm
variable {t u v : FloatTerm}

def evaluate (k : Kind) : FloatTerm → Except Failure Value
  | word w => .ok (.ofBits w)
  | neg t => do
    let v ← t.evaluate k
    (unary .neg ⟨v, k⟩).outcome
  | arithmetic op l r => do
    let x ← l.evaluate k
    let y ← r.evaluate k
    let z ← (binary (.arithmetic op) ⟨x, k⟩ ⟨y, k⟩).outcome
    return z.value

/-- The pattern to which a term comes in a format. -/
def pattern (F : Ieee.Format) : FloatTerm → ℕ
  | word w => w.toNat
  | neg t => F.neg (t.pattern F)
  | arithmetic op l r => op.atFormat F (l.pattern F) (r.pattern F)

theorem pattern_lt (hk : k.format? = some F) (t : FloatTerm) : t.pattern F < 2 ^ 64 := by
  have hfit := Kind.signBit_le_of_format? hk
  cases t with
  | word w => exact w.isLt
  | neg t => exact (F.neg_lt _).trans_le hfit
  | arithmetic op l r => exact (op.atFormat_lt (Kind.regular_of_format? hk) _ _).trans_le hfit

theorem toNat_ofNat_pattern (hk : k.format? = some F) (t : FloatTerm) :
    (BitVec.ofNat 64 (t.pattern F)).toNat = t.pattern F := by
  rw [BitVec.toNat_ofNat, Nat.mod_eq_of_lt (pattern_lt hk t)]

/-- No term fails: every result is a plain word, and so an operand of the next operator. -/
theorem evaluate_eq (hk : k.format? = some F) (t : FloatTerm) :
    t.evaluate k = .ok (.ofBits (.ofNat 64 (t.pattern F))) := by
  induction t with
  | word w => simp [evaluate, pattern]
  | neg t ih =>
    rw [evaluate, ih]
    refine (outcome_neg_floating hk _).trans ?_
    simp only [Value.ofBits, toNat_ofNat_pattern hk, pattern]
  | arithmetic op l r ihl ihr =>
    have hvalue := outcome_floating hk op (l := .ofBits (.ofNat 64 (l.pattern F)))
      (r := .ofBits (.ofNat 64 (r.pattern F))) rfl
    simp only [Value.ofBits, toNat_ofNat_pattern hk] at hvalue
    rw [evaluate, ihl, ihr]
    refine (congrArg (Except.map Result.value) hvalue).trans ?_
    rfl

/-- Both terms come to words: to the same one, or both to NaNs. -/
def Agrees (k : Kind) (F : Ieee.Format) (t u : FloatTerm) : Prop :=
  ∃ v w : BitVec 64, t.evaluate k = .ok (.ofBits v) ∧ u.evaluate k = .ok (.ofBits w) ∧
    F.Same v.toNat w.toNat

theorem agrees_of_same (hk : k.format? = some F) (h : F.Same (t.pattern F) (u.pattern F)) :
    Agrees k F t u := by
  refine ⟨_, _, evaluate_eq hk t, evaluate_eq hk u, ?_⟩
  rwa [toNat_ofNat_pattern hk, toNat_ofNat_pattern hk]

theorem pairwise_agrees (hk : k.format? = some F) (ht : F.Same (t.pattern F) (v.pattern F))
    (hu : F.Same (u.pattern F) (v.pattern F)) : [t, u, v].Pairwise (Agrees k F) := by
  have htu := ht.trans hu.symm
  simp [agrees_of_same hk ht, agrees_of_same hk hu, agrees_of_same hk htu]

end FloatTerm

open FloatTerm

/-- Where negation can be moved in a term. The operands are terms of their own. -/
structure SignSymmetry (k : Kind) (F : Ieee.Format) : Prop where
  sub (a b : FloatTerm) : Agrees k F (.arithmetic .sub a b) (.arithmetic .add a (.neg b))
  mul (a b : FloatTerm) : List.Pairwise (Agrees k F)
    [.arithmetic .mul (.neg a) b, .arithmetic .mul a (.neg b), .neg (.arithmetic .mul a b)]
  div (a b : FloatTerm) : List.Pairwise (Agrees k F)
    [.arithmetic .div (.neg a) b, .arithmetic .div a (.neg b), .neg (.arithmetic .div a b)]
  rem_dividend (a b : FloatTerm) :
    Agrees k F (.arithmetic .rem (.neg a) b) (.neg (.arithmetic .rem a b))
  rem_divisor (a b : FloatTerm) : Agrees k F (.arithmetic .rem a (.neg b)) (.arithmetic .rem a b)
  mul_neg_one (a : FloatTerm) (w : BitVec 64) : F.HasValue w.toNat (-1) →
    Agrees k F (.neg a) (.arithmetic .mul a (.word w))
  neg_zero_sub (a : FloatTerm) (w : BitVec 64) : F.HasValue w.toNat 0 →
    F.isNegative w.toNat = true → Agrees k F (.neg a) (.arithmetic .sub (.word w) a)
  neg_neg (w : BitVec 64) : (neg (.neg (.word w))).evaluate k =
    .ok (.ofBits ((w.setWidth k.width).setWidth 64))

/-- Moving a negation changes at most which NaN results. -/
theorem signSymmetry (hk : k.format? = some F) : SignSymmetry k F where
  sub a b := agrees_of_same hk (.inl (F.sub_eq_add_neg _ _))
  mul a b :=
    have hF := Kind.regular_of_format? hk
    pairwise_agrees hk (same_mul_neg_left hF _ _) (same_mul_neg_right hF _ _)
  div a b :=
    have hF := Kind.regular_of_format? hk
    pairwise_agrees hk (same_div_neg_left hF _ _) (same_div_neg_right hF _ _)
  rem_dividend a b := agrees_of_same hk (same_rem_neg_left (Kind.regular_of_format? hk) _ _)
  rem_divisor a b := agrees_of_same hk (.inl (F.rem_neg _ _))
  mul_neg_one a w hw := agrees_of_same hk (same_neg_mul (Kind.regular_of_format? hk) _ hw)
  neg_zero_sub a w hw hs := agrees_of_same hk (same_neg_sub (Kind.regular_of_format? hk) _ hw hs)
  neg_neg w := by
    have hlow : BitVec.ofNat 64 (F.neg (F.neg w.toNat)) = (w.setWidth k.width).setWidth 64 := by
      apply BitVec.eq_of_toNat_eq
      rw [Ieee.Format.neg_neg, ← Kind.two_pow_width hk, BitVec.toNat_ofNat, BitVec.toNat_setWidth,
        BitVec.toNat_setWidth]
    rw [evaluate_eq hk]
    exact congrArg (Except.ok ∘ Value.ofBits) hlow

/-- At `f32`, zero subtracted from `-0`, and the least positive value multiplied by `-1`. -/
theorem signSymmetry_zero_f32 :
    Kind.f32.format? = some binary32 ∧ binary32.HasValue 0xbf800000 (-1) ∧
      Agrees .f32 binary32 (neg (.word 1)) (.arithmetic .mul (.word 1) (.word 0xbf800000)) ∧
      Agrees .f32 binary32 (neg (.word 0)) (.arithmetic .sub (.word 0x80000000) (.word 0)) := by
  have hone : binary32.HasValue 0xbf800000 (-1) :=
    (hasValue_neg_one_iff regular_binary32).mpr (by decide +kernel)
  have hzero : binary32.HasValue 0x80000000 0 :=
    ((decode_eq_zero_iff (s := true) regular_binary32).mp (by decide +kernel)).1
  exact ⟨rfl, hone, (signSymmetry (k := .f32) rfl).mul_neg_one (.word 1) 0xbf800000 hone,
    (signSymmetry (k := .f32) rfl).neg_zero_sub (.word 0) 0x80000000 hzero rfl⟩

end Evaluate
end ScalarEval
