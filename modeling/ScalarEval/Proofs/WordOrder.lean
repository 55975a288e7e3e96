import Mathlib
import ScalarEval.Proofs.Comparison
import ScalarEval.Proofs.Reading

/-! What comparisons of words mean at kinds that are not floating. Equality is that of values, and
the order is that of the integers as long as none is negative: words of negative integers come after
all others, in their own order. -/
namespace ScalarEval

namespace Comparison
variable {c : Comparison} {a b : ℤ}

theorem rel_natCast (c : Comparison) (m n : ℕ) : c.Rel (m : ℤ) n ↔ c.Rel m n := by
  cases c <;> simp [Rel]

/-- Words are ordered as their integers are, unless just one of these is negative. -/
theorem rel_unsignedWord_iff (hc : c.isOrdering = true) (ha : -2 ^ 63 ≤ a ∧ a < 2 ^ 63)
    (hb : -2 ^ 63 ≤ b ∧ b < 2 ^ 63) :
    (c.Rel (unsignedWord a) (unsignedWord b) ↔ c.Rel a b) ↔ (a < 0 ↔ b < 0) := by
  unfold unsignedWord
  cases c with
  | eq | ne => cases hc
  | lt | le | gt | ge =>
    simp only [Rel]
    split_ifs <;> omega

theorem rel_unsignedWord_of_neg (hc : c.isOrdering = true) (ha : -2 ^ 63 ≤ a ∧ a < 0)
    (hb : 0 ≤ b ∧ b < 2 ^ 63) :
    (c.Rel (unsignedWord a) (unsignedWord b) ↔ c = .gt ∨ c = .ge) ∧
      (c.Rel (unsignedWord b) (unsignedWord a) ↔ c = .lt ∨ c = .le) := by
  have hlt : unsignedWord b < unsignedWord a := by
    unfold unsignedWord
    rw [if_pos ha.2, if_neg (not_lt.mpr hb.1)]
    omega
  cases c with
  | eq | ne => cases hc
  | lt | le | gt | ge => simp [Rel, hlt, hlt.le]

end Comparison

namespace Evaluate
variable {k : Kind}

theorem decides_words (hk : k.isFloating = false) (a : Option AllocId) (c : Comparison)
    (l r : BitVec 64) :
    (binary (.comparison c) ⟨⟨l, a⟩, k⟩ ⟨⟨r, a⟩, k⟩).Decides (c.Rel (l.toNat : ℤ) r.toNat) := by
  refine (decides_comparison a k c l r).iff.mpr ?_
  rw [order_of_isFloating_eq_false hk, c.rel_natCast]
  exact c.holds_compare_iff l.toNat r.toNat

/-- Values in different allocations are different, and are not read. -/
theorem decides_eq (hk : k.isFloating = false) (l r : Value) :
    (binary (.comparison .eq) ⟨l, k⟩ ⟨r, k⟩).Decides (l = r) := by
  obtain ⟨v, a⟩ := l
  obtain ⟨w, b⟩ := r
  by_cases h : a = b
  · subst h
    refine (decides_words hk a .eq v w).iff.mpr ?_
    simp [Comparison.Rel, BitVec.toNat_inj]
  · refine ⟨false, ?_, by simp [h]⟩
    rw [← Evaluation.ending_eq_ok_iff]
    exact ending_binary_unrelated (.comparison .eq) (l := ⟨⟨v, a⟩, k⟩) (r := ⟨⟨w, b⟩, k⟩) h

/-- What comparisons decide at a kind that is not floating. -/
structure WordOrder (k : Kind) : Prop where
  eq (l r : Value) : (binary (.comparison .eq) ⟨l, k⟩ ⟨r, k⟩).Decides (l = r)
  eq_read (l r : BitVec 64) : k.Canonical l → k.Canonical r →
    (onPlain (.comparison .eq) k l r).Decides ((Value.ofBits l).read k = (Value.ofBits r).read k)
  unsigned (c : Comparison) (l r : BitVec 64) : k.isSigned = false → k.Canonical l →
    k.Canonical r →
    (onPlain (.comparison c) k l r).Decides
      (c.Rel ((Value.ofBits l).read k) ((Value.ofBits r).read k))
  signed (c : Comparison) (l r : BitVec 64) : k.isSigned = true → c.isOrdering = true →
    k.Canonical l → k.Canonical r →
    ((onPlain (.comparison c) k l r).Decides
        (c.Rel ((Value.ofBits l).read k) ((Value.ofBits r).read k)) ↔
      ((Value.ofBits l).read k < 0 ↔ (Value.ofBits r).read k < 0))
  negative_last (c : Comparison) (l r : BitVec 64) : c.isOrdering = true → k.Canonical l →
    k.Canonical r → (Value.ofBits l).read k < 0 → 0 ≤ (Value.ofBits r).read k →
    (onPlain (.comparison c) k l r).Decides (c = .gt ∨ c = .ge) ∧
      (onPlain (.comparison c) k r l).Decides (c = .lt ∨ c = .le)
  offset (c : Comparison) (a : AllocId) (m n : ℤ) :
    (binary (.comparison c) ⟨.ofPointer ⟨some a, m⟩, k⟩ ⟨.ofPointer ⟨some a, n⟩, k⟩).Decides
      (c.Rel (m % 2 ^ 64) (n % 2 ^ 64))

/-- Comparisons at kinds that are not floating. Signed words that only one of is negative are the
ones compared the other way round. -/
theorem wordOrder (hk : k.isFloating = false) : WordOrder k where
  eq := decides_eq hk
  eq_read l r hl hr := by
    have hread : l = r ↔ (Value.ofBits l).read k = (Value.ofBits r).read k := by
      refine ⟨fun h => by rw [h], fun h => BitVec.eq_of_toNat_eq ?_⟩
      have hword := congrArg unsignedWord h
      rw [← Kind.toNat_eq_read hk hl, ← Kind.toNat_eq_read hk hr] at hword
      exact_mod_cast hword
    exact (decides_eq hk (.ofBits l) (.ofBits r)).iff.mpr (Value.ofBits_inj.trans hread)
  unsigned c l r hs hl hr := by
    rw [Kind.read_eq_toNat hk hs hl, Kind.read_eq_toNat hk hs hr]
    exact decides_words hk none c l r
  signed c l r hs hc hl hr := by
    refine (decides_words hk none c l r).iff.trans ?_
    rw [Kind.toNat_eq_read hk hl, Kind.toNat_eq_read hk hr]
    exact Comparison.rel_unsignedWord_iff hc (Kind.read_bounds_of_isSigned hs _)
      (Kind.read_bounds_of_isSigned hs _)
  negative_last c l r hc hl hr hneg hpos := by
    have hs := Kind.isSigned_of_read_neg hneg
    obtain ⟨hbelow, habove⟩ := Comparison.rel_unsignedWord_of_neg hc
      ⟨(Kind.read_bounds_of_isSigned hs _).1, hneg⟩ ⟨hpos, (Kind.read_bounds_of_isSigned hs _).2⟩
    rw [← Kind.toNat_eq_read hk hl, ← Kind.toNat_eq_read hk hr] at hbelow habove
    exact ⟨(decides_words hk none c l r).iff.mpr hbelow,
      (decides_words hk none c r l).iff.mpr habove⟩
  offset c a m n := by
    have hword (x : ℤ) : ((Value.ofPointer ⟨some a, x⟩).bits.toNat : ℤ) = x % 2 ^ 64 :=
      toNat_ofInt_word x
    rw [← hword m, ← hword n]
    exact decides_words hk (some a) c _ _

/-- The words of -1 and 1 are not compared as these integers are. -/
theorem wordOrder_i8 :
    Kind.i8.isFloating = false ∧ (Value.ofBits (-1)).read .i8 = -1 ∧ (Value.ofBits 1).read .i8 = 1 ∧
      ¬ (onPlain (.comparison .lt) .i8 (-1) 1).Decides ((-1 : ℤ) < 1) := by
  have hl : (Value.ofBits (-1)).read .i8 = -1 := by decide
  have hr : (Value.ofBits 1).read .i8 = 1 := by decide
  have hsigned := (wordOrder (k := .i8) rfl).signed .lt (-1) 1 rfl rfl (by decide) (by decide)
  rw [hl, hr] at hsigned
  refine ⟨rfl, hl, hr, fun hd => ?_⟩
  have hsame := hsigned.mp hd
  omega

end Evaluate
end ScalarEval
