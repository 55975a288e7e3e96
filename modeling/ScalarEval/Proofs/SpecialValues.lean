import Mathlib
import ScalarEval.Proofs.FloatArithmetic

/-! What floating arithmetic makes of NaNs, infinities and zeros. Division has no failing case: over
a zero it gives an infinity. Where a result is computed as a double, storing it keeps what special
value it is. -/
namespace ScalarEval

open Ieee (binary32 binary64)
open Ieee.Format

/-- The result of an operator on two patterns, where it or an operand of a division is special. -/
structure Arithmetic.Special (op : Arithmetic) (F : Ieee.Format) (p q w : ℕ) : Prop where
  nan_iff : F.isNaN w = true ↔ F.isNaN p = true ∨ F.isNaN q = true ∨ op.Invalid F p q
  div_zero : op = .div → F.isNaN p = false → ¬ F.HasValue p 0 → F.HasValue q 0 →
    F.IsInfinite w ∧ F.isNegative w = (F.isNegative p ^^ F.isNegative q)
  div_infinite (x : ℚ) : op = .div → F.HasValue p x → F.IsInfinite q →
    F.HasValue w 0 ∧ F.isNegative w = (F.isNegative p ^^ F.isNegative q)

theorem Arithmetic.special {F : Ieee.Format} (hF : F.Regular) (op : Arithmetic) (p q : ℕ) :
    op.Special F p q (op.atFormat F p q) where
  nan_iff := isNaN_atFormat hF op p q
  div_zero hop hnan hp hq := by
    have hdiv : op.atFormat F p q = F.pattern (F.isNegative p ^^ F.isNegative q) F.infinity := by
      rw [hop]
      exact div_zero_eq hF hnan hp hq
    rw [hdiv]
    exact ⟨isInfinite_pattern F _, isNegative_pattern F.infinity_lt_signBit⟩
  div_infinite x hop hp hq := by
    have hdiv : op.atFormat F p q = F.pattern (F.isNegative p ^^ F.isNegative q) 0 := by
      rw [hop]
      exact div_infinite_eq hp hq
    rw [hdiv]
    exact ⟨hasValue_pattern_zero hF _, isNegative_pattern (Nat.two_pow_pos _)⟩

/-- The pattern in which a double is stored is a NaN as the double is, has its sign, and is an
infinity or a zero where the double is one. -/
structure Ieee.Format.Stores (F : Ieee.Format) (d w : ℕ) : Prop where
  nan_iff : F.isNaN w = true ↔ binary64.isNaN d = true
  sign : binary64.isNaN d = false → F.isNegative w = binary64.isNegative d
  infinite : binary64.IsInfinite d → F.IsInfinite w
  zero : binary64.HasValue d 0 → F.HasValue w 0

theorem Ieee.stores_narrow (d : ℕ) : binary32.Stores d (narrow d) where
  nan_iff := by rw [narrow, isNaN_convert regular_binary32]
  sign _ := isNegative_convert regular_binary32 d
  infinite := isInfinite_convert binary32
  zero := hasValue_zero_convert regular_binary64 regular_binary32

namespace Evaluate
variable {k : Kind} {F : Ieee.Format} {l r : Value}

/-- Floating arithmetic always succeeds, and no overflow is flagged. -/
theorem special_values (hk : k.format? = some F) (op : Arithmetic) (h : l.alloc = r.alloc) :
    ∃ w : BitVec 64, (binary (.arithmetic op) ⟨l, k⟩ ⟨r, k⟩).outcome = .ok ⟨.ofBits w, false⟩ ∧
      op.Special F l.bits.toNat r.bits.toNat w.toNat ∧
      F.Stores (op.onDoubles (k.toDouble l.bits) (k.toDouble r.bits)) w.toNat := by
  have hF := Kind.regular_of_format? hk
  have hpattern := Kind.toNat_ofNat_pattern hk (op.atFormat_lt hF l.bits.toNat r.bits.toNat)
  refine ⟨_, outcome_floating hk op h, ?_, ?_⟩
  · rw [hpattern]
    exact op.special hF _ _
  · rw [hpattern, op.onDoubles_eq]
    obtain ⟨rfl, rfl⟩ | ⟨rfl, rfl⟩ := Kind.format?_eq_some_iff.mp hk
    · rw [← op.narrow_atFormat]
      exact Ieee.stores_narrow _
    · exact ⟨Iff.rfl, fun _ => rfl, id, id⟩

/-- One over `-0` is the negative infinity, also where both words are offsets into an allocation. -/
theorem special_values_neg_zero_f32 :
    Kind.f32.format? = some binary32 ∧
      (binary (.arithmetic .div) ⟨⟨0x3f800000, some (.number 1)⟩, .f32⟩
        ⟨⟨0x80000000, some (.number 1)⟩, .f32⟩).outcome = .ok ⟨.ofBits 0xff800000, false⟩ ∧
      Arithmetic.div.Special binary32 0x3f800000 0x80000000 0xff800000 ∧
      binary32.Stores (Arithmetic.div.onDoubles (Kind.f32.toDouble 0x3f800000)
        (Kind.f32.toDouble 0x80000000)) 0xff800000 := by
  have hvalue : (binary (.arithmetic .div) ⟨⟨0x3f800000, some (.number 1)⟩, .f32⟩
      ⟨⟨0x80000000, some (.number 1)⟩, .f32⟩).outcome = .ok ⟨.ofBits 0xff800000, false⟩ := by
    decide +kernel
  obtain ⟨w, hw, hspecial, hstores⟩ := special_values (k := .f32)
    (l := ⟨0x3f800000, some (.number 1)⟩) (r := ⟨0x80000000, some (.number 1)⟩) rfl .div rfl
  rw [hvalue] at hw
  cases hw
  exact ⟨rfl, hvalue, hspecial, hstores⟩

end Evaluate
end ScalarEval
