import Mathlib
import ScalarEval.Proofs.Comparison
import ScalarEval.Proofs.FloatRounding
import ScalarEval.Proofs.LowBits
import ScalarEval.Proofs.Ieee.Denotation

/-! What comparisons of words mean at the floating kinds. They are of exact numbers and infinities,
although singles are compared as doubles, and can be told from the bits of words. -/
namespace ScalarEval

open Ieee (binary32 binary64)

namespace Kind
variable {k : Kind} {F : Ieee.Format}

theorem denoted?_toDouble (hk : k.format? = some F) (w : BitVec 64) :
    binary64.denoted? (k.toDouble w) = F.denoted? w.toNat := by
  obtain ⟨rfl, rfl⟩ | ⟨rfl, rfl⟩ := format?_eq_some_iff.mp hk
  · exact Ieee.denoted?_widen w.toNat
  · rfl

end Kind

namespace Evaluate
variable {k : Kind} {F : Ieee.Format}

theorem order_of_format? (hk : k.format? = some F) (l r : BitVec 64) :
    order k l r = F.compare? l.toNat r.toNat := by
  simp only [order, hk]

/-- What comparisons decide at a floating kind, of words in one allocation and of plain words. -/
structure FloatOrder (k : Kind) (F : Ieee.Format) : Prop where
  ordered (a : Option AllocId) (c : Comparison) (l r : BitVec 64) (x y : Ieee.Extended) :
    F.denoted? l.toNat = some x → F.denoted? r.toNat = some y →
    (binary (.comparison c) ⟨⟨l, a⟩, k⟩ ⟨⟨r, a⟩, k⟩).Decides (c.Rel x y)
  unordered (a : Option AllocId) (c : Comparison) (l r : BitVec 64) :
    F.denoted? l.toNat = none ∨ F.denoted? r.toNat = none →
    (binary (.comparison c) ⟨⟨l, a⟩, k⟩ ⟨⟨r, a⟩, k⟩).Decides (c = .ne)
  by_key (a : Option AllocId) (c : Comparison) (l r : BitVec 64) :
    F.denoted? l.toNat ≠ none → F.denoted? r.toNat ≠ none →
    (binary (.comparison c) ⟨⟨l, a⟩, k⟩ ⟨⟨r, a⟩, k⟩).Decides (c.Rel (F.key l.toNat) (F.key r.toNat))
  low_bits (a : Option AllocId) (c : Comparison) (l l' r r' : BitVec 64) :
    k.LowEq l l' → k.LowEq r r' →
    (binary (.comparison c) ⟨⟨l, a⟩, k⟩ ⟨⟨r, a⟩, k⟩).outcome =
      (binary (.comparison c) ⟨⟨l', a⟩, k⟩ ⟨⟨r', a⟩, k⟩).outcome
  widened (w : BitVec 64) : binary64.denoted? (k.toDouble w) = F.denoted? w.toNat

theorem floatOrder (hk : k.format? = some F) : FloatOrder k F where
  ordered a c l r x y hx hy := by
    have horder : order k l r = some (compare x y) := by
      rw [order_of_format? hk, Ieee.Format.compare?_eq_denoted (Kind.regular_of_format? hk), hx, hy]
      rfl
    refine (decides_comparison a k c l r).iff.mpr ?_
    rw [horder]
    exact c.holds_compare_iff x y
  unordered a c l r h := by
    have horder : order k l r = none := by
      rw [order_of_format? hk, Ieee.Format.compare?_eq_denoted (Kind.regular_of_format? hk)]
      exact Option.map₂_eq_none_iff.mpr h
    refine (decides_comparison a k c l r).iff.mpr ?_
    rw [horder]
    cases c <;> decide
  by_key a c l r hl hr := by
    have hF := Kind.regular_of_format? hk
    have horder : order k l r = some (compare (F.key l.toNat) (F.key r.toNat)) := by
      rw [order_of_format? hk]
      exact Ieee.Format.compare?_eq_key hF ((Ieee.Format.denoted?_ne_none_iff hF).mp hl)
        ((Ieee.Format.denoted?_ne_none_iff hF).mp hr)
    refine (decides_comparison a k c l r).iff.mpr ?_
    rw [horder]
    exact c.holds_compare_iff _ _
  low_bits a c l l' r r' hl hr := by
    rw [outcome_comparison, outcome_comparison, order_of_format? hk, order_of_format? hk,
      Ieee.Format.compare?, Ieee.Format.compare?, hl.decode_eq hk, hr.decode_eq hk]
  widened := Kind.denoted?_toDouble hk

/-- The least positive `f32` is greater than `-0`, whatever stands above the single. -/
theorem floatOrder_subnormal_f32 :
    Kind.f32.format? = some binary32 ∧
      (binary (.comparison .lt) ⟨.ofBits 0xffffffff80000000, .f32⟩ ⟨.ofBits 1, .f32⟩).Decides
        (binary32.key 0xffffffff80000000 < binary32.key 1) ∧
      binary32.key 0xffffffff80000000 = 0 ∧ binary32.key 1 = 1 := by
  have hdenoted {p : ℕ} := Ieee.Format.denoted?_ne_none_iff (p := p) Ieee.Format.regular_binary32
  refine ⟨rfl, ?_, by decide, by decide⟩
  exact (floatOrder (k := .f32) rfl).by_key none .lt 0xffffffff80000000 1
    (hdenoted.mpr (by decide)) (hdenoted.mpr (by decide))

end Evaluate
end ScalarEval
