import Mathlib
import ScalarEval.Proofs.FloatArithmetic
import ScalarEval.Proofs.LowBits
import ScalarEval.Proofs.Ieee.Conversion

/-! Doubles as they are stored at the floating kinds. Each is rounded to the format of the kind, in
keeping with order and sign, and a word comes back from the double that it denotes. -/
namespace ScalarEval

open Ieee (binary32 binary64)
open Ieee.Format

namespace Kind
variable {k : Kind} {F : Ieee.Format} {p : ℕ}

/-- Storing is conversion. At `f64` nothing is left to convert. -/
theorem toNat_ofDouble (hk : k.format? = some F) (h : binary64.isNaN p = false) :
    (k.ofDouble p).toNat = binary64.convert F p := by
  obtain ⟨rfl, rfl⟩ | ⟨rfl, rfl⟩ := format?_eq_some_iff.mp hk
  · exact toNat_ofNat_pattern (k := .f32) rfl (convert_lt (by decide) p)
  · have hself := convert_self h
    change (BitVec.ofNat 64 p).toNat = _
    rw [hself, BitVec.toNat_ofNat]
    rfl

/-- The bits of a word that its kind reads are stored again, unless they are those of a NaN. -/
theorem toNat_ofDouble_toDouble (hk : k.format? = some F) {w : BitVec 64}
    (h : F.isNaN w.toNat = false) :
    (k.ofDouble (k.toDouble w)).toNat = w.toNat % 2 ^ k.width := by
  obtain ⟨rfl, rfl⟩ | ⟨rfl, rfl⟩ := format?_eq_some_iff.mp hk
  · have hlow : w.toNat % 2 ^ 32 < 2 ^ 32 := Nat.mod_lt _ (by norm_num)
    have hnan : binary32.isNaN (w.toNat % 2 ^ 32) = false := (binary32.isNaN_mod w.toNat).trans h
    obtain ⟨hback, -, -⟩ := Ieee.narrow_widen hlow hnan
    have hwiden : Kind.f32.toDouble w = Ieee.widen (w.toNat % 2 ^ 32) :=
      (convert_mod binary32 binary64 w.toNat).symm
    change (BitVec.ofNat 64 (Ieee.narrow (Kind.f32.toDouble w))).toNat = w.toNat % 2 ^ 32
    rw [hwiden, hback, BitVec.toNat_ofNat]
    omega
  · change (BitVec.ofNat 64 w.toNat).toNat = w.toNat % 2 ^ 64
    exact BitVec.toNat_ofNat _ _

end Kind

/-- How doubles are stored at a kind of a format. Numbers are rounded to nearest, ties to even, and
infinities are kept; signs and order are kept, the signs of zeros too. -/
structure Kind.Packs (k : Kind) (F : Ieee.Format) : Prop where
  rounded (p q : ℕ) (x : ℚ) : binary64.HasValue p x →
    (F.CorrectlyRounded x (binary64.isNegative p) q ↔ q = (k.ofDouble p).toNat)
  infinite (p : ℕ) : binary64.isNaN p = false →
    (F.IsInfinite (k.ofDouble p).toNat ↔
      binary64.IsInfinite p ∨ ∃ x, binary64.HasValue p x ∧ F.overflowBound ≤ |x|)
  bound : k = .f32 → F.overflowBound = 2 ^ 128 - 2 ^ 103
  sign (p : ℕ) : binary64.isNaN p = false →
    F.isNegative (k.ofDouble p).toNat = binary64.isNegative p
  monotone (p q : ℕ) (x y : Ieee.Extended) : binary64.denoted? p = some x →
    binary64.denoted? q = some y → x ≤ y →
    ∃ x' y', F.denoted? (k.ofDouble p).toNat = some x' ∧
      F.denoted? (k.ofDouble q).toNat = some y' ∧ x' ≤ y'
  negated (p : ℕ) : binary64.isNaN p = false →
    (k.ofDouble (binary64.neg p)).toNat = (k.ofDouble p).toNat ^^^ F.signBit
  reread (n : ℤ) : F.isNaN (n % 2 ^ k.width).toNat = false →
    ((k.ofDouble (k.toDouble (.ofInt 64 n))).toNat : ℤ) = n % 2 ^ k.width

/-- Every double but NaN is stored at a floating kind as its format has it, and every word but NaN
is stored from the double that it denotes. -/
theorem Kind.packs {k : Kind} {F : Ieee.Format} (hk : k.format? = some F) : k.Packs F where
  rounded p q x hx := by
    have hF := regular_of_format? hk
    have hnan := isNaN_of_denoted? regular_binary64 hx
    have hround := convert_correctlyRounded regular_binary64 hF hx
    rw [toNat_ofDouble hk hnan]
    exact ⟨fun h => h.unique hF hround, fun h => h ▸ hround⟩
  infinite p hnan := by
    rw [toNat_ofDouble hk hnan]
    exact isInfinite_convert_iff regular_binary64 (regular_of_format? hk) hnan
  bound hf := by
    subst hf
    obtain rfl : binary32 = F := Option.some.inj hk
    norm_num [overflowBound, maxExponent, binary32]
  sign p hnan := by
    rw [toNat_ofDouble hk hnan]
    exact isNegative_convert (regular_of_format? hk) p
  monotone p q x y hp hq hxy := by
    have hnan := isNaN_of_denoted? regular_binary64 hp
    have hnan' := isNaN_of_denoted? regular_binary64 hq
    rw [toNat_ofDouble hk hnan, toNat_ofDouble hk hnan']
    exact denoted?_convert_le regular_binary64 (regular_of_format? hk) hp hq hxy
  negated p hnan := by
    have hF := regular_of_format? hk
    have hnan' : binary64.isNaN (binary64.neg p) = false := (binary64.isNaN_neg p).trans hnan
    rw [toNat_ofDouble hk hnan', toNat_ofDouble hk hnan, convert_neg F hnan]
    exact (xor_signBit (two_pow_width hk).symm
      ((two_pow_width hk).symm ▸ convert_lt hF.fraction p)).symm
  reread n hnan := by
    have hlow : ((BitVec.ofInt 64 n).toNat : ℤ) % 2 ^ k.width = n % 2 ^ k.width := by
      rw [toNat_ofInt_word, Int.emod_emod_of_dvd n k.modulus_dvd]
    have hlow' : (BitVec.ofInt 64 n).toNat % 2 ^ k.width = (n % 2 ^ k.width).toNat := by
      rw [← hlow]
      exact_mod_cast (Int.toNat_natCast _).symm
    have hword : F.isNaN (BitVec.ofInt 64 n).toNat = false := by
      rwa [← isNaN_mod, ← two_pow_width hk, hlow']
    rw [toNat_ofDouble_toDouble hk hword]
    exact_mod_cast hlow

/-- The double half way between the greatest single and the next power of two is stored as an
infinity, and its neighbour below as the greatest single. The negated least double is stored as
`-0`. -/
theorem Kind.packs_bound_f32 :
    Kind.f32.format? = some binary32 ∧
      binary64.HasValue 0x47effffff0000000 (2 ^ 128 - 2 ^ 103) ∧
      binary32.IsInfinite (Kind.f32.ofDouble 0x47effffff0000000).toNat ∧
      binary32.CorrectlyRounded (binary64.rational 0x47efffffefffffff) false 0x7f7fffff ∧
      (Kind.f32.ofDouble (binary64.neg 1)).toNat = 0x80000000 := by
  have hpacks := Kind.packs (k := .f32) rfl
  have hunits : binary64.units (binary64.magnitude 0x47effffff0000000) =
      (2 ^ 128 - 2 ^ 103) * 2 ^ binary64.scale := by decide +kernel
  have hbound : binary64.HasValue 0x47effffff0000000 (2 ^ 128 - 2 ^ 103) := by
    refine hasValue_iff.mpr ⟨by decide, ?_⟩
    have hsign : binary64.isNegative 0x47effffff0000000 = false := by decide
    rw [rational_eq regular_binary64, hsign, hunits, div_eq_iff (by positivity)]
    push_cast [Ieee.Datum.signed]
    norm_num
  have hinfinite : binary32.IsInfinite (Kind.f32.ofDouble 0x47effffff0000000).toNat := by
    refine (hpacks.infinite _ (by decide)).mpr (.inr ⟨_, hbound, ?_⟩)
    rw [hpacks.bound rfl]
    exact le_abs_self _
  have hbelow : binary64.HasValue 0x47efffffefffffff (binary64.rational 0x47efffffefffffff) :=
    hasValue_iff.mpr ⟨by decide, rfl⟩
  have hgreatest : 0x7f7fffff = (Kind.f32.ofDouble 0x47efffffefffffff).toNat := by decide +kernel
  have hzero : (Kind.f32.ofDouble 1).toNat = 0 := by decide +kernel
  refine ⟨rfl, hbound, hinfinite, (hpacks.rounded _ _ _ hbelow).mpr hgreatest, ?_⟩
  rw [hpacks.negated 1 (by decide), hzero]
  decide

end ScalarEval
