import Mathlib
import ScalarEval.Proofs.Reading

/-! Integers in words. At every kind that is not floating a word stores an integer modulo
`2 ^ width`, and is read within the bounds of the kind. The words that storing leaves are the
canonical ones, and they alone are stored again from what is read of them. -/
namespace ScalarEval

namespace Kind
variable {k : Kind} {w : BitVec 64}

theorem fits_iff_wrap_eq {n : ℤ} : k.fits n = true ↔ k.wrap n = n :=
  ⟨wrap_eq_of_fits, fun h => h ▸ k.fits_wrap n⟩

theorem toNat_extend (k : Kind) (n : ℤ) : ((k.extend n).toNat : ℤ) = k.wrap n % 2 ^ 64 :=
  toNat_ofInt_word _

theorem eq_zero_or_one_of_extendLow_bool (h : bool.extendLow w = w) : w = 0 ∨ w = 1 := by
  have hlow : w.toNat % 2 = w.toNat := by
    have htoNat := congrArg BitVec.toNat h
    change ((w.setWidth 1).setWidth 64).toNat = w.toNat at htoNat
    rw [BitVec.toNat_setWidth, BitVec.toNat_setWidth] at htoNat
    omega
  rw [← BitVec.toNat_inj, ← BitVec.toNat_inj]
  have hzero : (0 : BitVec 64).toNat = 0 := rfl
  have hone : (1 : BitVec 64).toNat = 1 := rfl
  omega

/-- The words that storing leaves unchanged are the canonical ones. Floating kinds are left out,
since their words are stored in another way. -/
theorem extendLow_eq_self_iff (hk : k.isFloating = false) :
    k.extendLow w = w ↔ k.Canonical w := by
  refine ⟨fun h => ?_, extendLow_of_canonical hk⟩
  cases hi : k.isInteger with
  | true =>
    rw [← h, extendLow_eq_extend]
    exact canonical_extend hi _
  | false =>
    rcases k.eq_bool_or_ptr_iff.mpr ⟨hk, hi⟩ with rfl | rfl
    · rcases eq_zero_or_one_of_extendLow_bool h with rfl | rfl
      · exact canonical_ofBool false
      · exact canonical_ofBool true
    · exact canonical_ptr w

end Kind

/-- A value is stored again from what is read of it if it is plain and its word is canonical. -/
theorem Value.ofInt_read_eq_self_iff {k : Kind} (hk : k.isFloating = false) (v : Value) :
    ofInt (v.read k) k = v ↔ v.alloc = none ∧ k.Canonical v.bits := by
  obtain ⟨w, a⟩ := v
  change ofInt ((ofBits w).read k) k = ⟨w, a⟩ ↔ a = none ∧ k.Canonical w
  rw [ofInt_read, ofBits, Value.mk.injEq, Kind.extendLow_eq_self_iff hk, and_comm, eq_comm]

namespace Kind

/-- How integers are wrapped to a kind, stored in a word and read back. -/
structure IntegerCodec (k : Kind) : Prop where
  bounds (n : ℤ) : k.minValue ≤ k.wrap n ∧ k.wrap n ≤ k.maxValue
  congruent (n : ℤ) : k.wrap n ≡ n [ZMOD 2 ^ k.width]
  kernel (m n : ℤ) : k.wrap m = k.wrap n ↔ m ≡ n [ZMOD 2 ^ k.width]
  fixed (n : ℤ) : k.fits n = true ↔ k.wrap n = n
  stored (n : ℤ) : ((k.extend n).toNat : ℤ) = k.wrap n % 2 ^ 64 ∧ (k.extend n).toNat ≤ 2 ^ 64 - 1
  wrap_stored (n : ℤ) : k.wrap (k.extend n).toNat = k.wrap n
  stored_wrap (n : ℤ) : k.extend (k.wrap n) = k.extend n
  read_value (n : ℤ) : (Value.ofInt n k).read k = k.wrap n
  value_read (v : Value) : Value.ofInt (v.read k) k = v ↔ v.alloc = none ∧ k.Canonical v.bits

theorem integerCodec (k : Kind) (hk : k.isFloating = false) : k.IntegerCodec where
  bounds n := fits_iff.mp (k.fits_wrap n)
  congruent := k.wrap_modEq
  kernel _ _ := wrap_eq_wrap_iff
  fixed _ := fits_iff_wrap_eq
  stored n := ⟨k.toNat_extend n, Nat.le_sub_one_of_lt (k.extend n).isLt⟩
  wrap_stored := k.wrap_extend
  stored_wrap := k.extend_wrap
  read_value n := Value.read_ofInt n k
  value_read := Value.ofInt_read_eq_self_iff hk

/-- The word of 128 is read as -128 at `i8`, as 384 would be. That integer is stored with all
higher bits set, so the word is not stored again. -/
theorem integerCodec_i8 :
    i8.isFloating = false ∧ i8.wrap 384 = i8.wrap (-128) ∧ i8.fits 384 = false ∧
      (Value.ofInt 384 .i8).read .i8 = -128 ∧
      Value.ofInt ((Value.ofBits 0x80).read .i8) .i8 ≠ .ofBits 0x80 := by
  have h := integerCodec .i8 rfl
  have hkernel : i8.wrap 384 = i8.wrap (-128) := (h.kernel _ _).mpr (by decide)
  have hleast : i8.wrap (-128) = -128 := (h.fixed _).mp (by decide)
  refine ⟨rfl, hkernel, ?_, (h.read_value 384).trans (hkernel.trans hleast), fun hself => ?_⟩
  · rw [← Bool.not_eq_true, h.fixed, hkernel, hleast]
    decide
  · have hword : ¬ i8.Canonical 0x80 := by decide
    exact hword ((h.value_read _).mp hself).2

end Kind
end ScalarEval
