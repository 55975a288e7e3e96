import Mathlib
import ScalarEval.Proofs.Ieee.Operation
import ScalarEval.Proofs.Ieee.Order

/-! What patterns denote, by their fields: rational numbers and two infinities. Patterns are
compared by what they denote, which is also the order of their magnitudes under their signs. -/
namespace ScalarEval.Ieee

/-- The rational numbers with an infinity on either side. -/
abbrev Extended := WithBot (WithTop ℚ)

namespace Format
variable {F : Format} {p q m : ℕ}

/-- Units as the numbers they are worth. -/
def worth (F : Format) : Line → Extended :=
  WithBot.map (WithTop.map fun n : ℤ => (n / 2 ^ F.scale : ℚ))

theorem worth_ofInt (F : Format) (n : ℤ) :
    F.worth (.ofInt n) = ((n / 2 ^ F.scale : ℚ) : WithTop ℚ) := rfl

@[simp] theorem worth_bot (F : Format) : F.worth ⊥ = ⊥ := rfl

@[simp] theorem worth_top (F : Format) : F.worth ⊤ = ⊤ := rfl

theorem strictMono_worth (F : Format) : StrictMono F.worth := by
  refine StrictMono.withBot_map (StrictMono.withTop_map fun m n hmn => ?_)
  have hpos : (0 : ℚ) < 2 ^ F.scale := by positivity
  rw [div_lt_div_iff_of_pos_right hpos]
  exact_mod_cast hmn

/-- What a pattern denotes. The greatest exponent field is that of the infinities, which have no
fraction, and of the NaNs. -/
def denoted? (F : Format) (p : ℕ) : Option Extended :=
  if F.magnitude p / 2 ^ F.fractionBits ≠ 2 ^ F.exponentBits - 1 then
    some ((F.rational p : WithTop ℚ) : Extended)
  else if F.magnitude p % 2 ^ F.fractionBits ≠ 0 then none
  else some (if F.isNegative p then ⊥ else ⊤)

theorem magnitude_lt_infinity_iff : F.magnitude p < F.infinity ↔
    F.magnitude p / 2 ^ F.fractionBits ≠ 2 ^ F.exponentBits - 1 := by
  have hp : 0 < 2 ^ F.fractionBits := by positivity
  have hlt : F.magnitude p < 2 ^ F.exponentBits * 2 ^ F.fractionBits := by
    rw [← pow_add]
    exact Nat.mod_lt _ (Nat.two_pow_pos _)
  have hfield := (Nat.div_lt_iff_lt_mul hp).mpr hlt
  have hiff : F.magnitude p < F.infinity ↔
      F.magnitude p / 2 ^ F.fractionBits < 2 ^ F.exponentBits - 1 :=
    (Nat.div_lt_iff_lt_mul hp).symm
  rw [hiff]
  omega

theorem magnitude_eq_infinity_add (h : ¬ F.magnitude p < F.infinity) :
    F.magnitude p = F.infinity + F.magnitude p % 2 ^ F.fractionBits := by
  have hfield := not_ne_iff.mp (magnitude_lt_infinity_iff.not.mp h)
  conv_lhs => rw [← Nat.div_add_mod' (F.magnitude p) (2 ^ F.fractionBits), hfield]
  rfl

/-- Fields say what decoding does. -/
theorem denoted?_eq (hF : F.Regular) (p : ℕ) :
    F.denoted? p = (F.decode p).place?.map F.worth := by
  unfold denoted?
  by_cases hfinite : F.magnitude p < F.infinity
  · rw [if_pos (magnitude_lt_infinity_iff.mp hfinite), decode_finite hfinite, rational_eq hF]
    rfl
  · have hsum := magnitude_eq_infinity_add hfinite
    rw [if_neg (magnitude_lt_infinity_iff.not.mp hfinite)]
    by_cases hfraction : F.magnitude p % 2 ^ F.fractionBits = 0
    · rw [if_neg (not_not.mpr hfraction), decode_infinite (by omega)]
      cases F.isNegative p <;> simp [Datum.place?]
    · have hnan : F.decode p = .nan := decode_eq_nan_iff.mpr (decide_eq_true (by omega))
      rw [if_pos hfraction, hnan]
      rfl

theorem denoted?_ne_none_iff (hF : F.Regular) : F.denoted? p ≠ none ↔ F.isNaN p = false := by
  rw [denoted?_eq hF, ne_eq, Option.map_eq_none_iff, Datum.place?_eq_none_iff, decode_eq_nan_iff,
    Bool.not_eq_true]

/-- Patterns are compared by what they denote. -/
theorem compare?_eq_denoted (hF : F.Regular) (p q : ℕ) :
    F.compare? p q = Option.map₂ compare (F.denoted? p) (F.denoted? q) := by
  rw [denoted?_eq hF, denoted?_eq hF, Option.map₂_map_left, Option.map₂_map_right]
  simp only [Line.compare_of_strictMono F.strictMono_worth]
  exact Datum.compare?_eq _ _

/-- The magnitude of a pattern, negated under its sign bit. -/
def key (F : Format) (p : ℕ) : ℤ :=
  Datum.signed (F.isNegative p) (F.magnitude p)

theorem key_mem_iff : F.key p ∈ Set.Icc (-F.infinity : ℤ) F.infinity ↔ F.isNaN p = false := by
  unfold key Datum.signed isNaN
  rw [Set.mem_Icc, decide_eq_false_iff_not]
  split_ifs <;> omega

/-- The units of a magnitude, for a magnitude under a sign. -/
def signedUnits (F : Format) (z : ℤ) : ℤ :=
  z.sign * F.units z.natAbs

theorem signedUnits_neg (F : Format) (z : ℤ) : F.signedUnits (-z) = -F.signedUnits z := by
  simp [signedUnits]

theorem signedUnits_natCast (F : Format) (m : ℕ) : F.signedUnits m = F.units m := by
  rcases Nat.eq_zero_or_pos m with rfl | hm
  · simp [signedUnits, units_zero]
  · rw [signedUnits, Int.sign_natCast_of_ne_zero hm.ne', one_mul, Int.natAbs_natCast]

theorem strictMono_signedUnits (F : Format) : StrictMono F.signedUnits := by
  refine strictMono_of_odd_strictMonoOn_nonneg F.signedUnits_neg fun a ha b hb hab => ?_
  obtain ⟨m, rfl⟩ := Int.eq_ofNat_of_zero_le ha
  obtain ⟨n, rfl⟩ := Int.eq_ofNat_of_zero_le hb
  rw [signedUnits_natCast, signedUnits_natCast]
  exact_mod_cast F.units_strictMono (by exact_mod_cast hab)

theorem signedUnits_signed (F : Format) (s : Bool) (m : ℕ) :
    F.signedUnits (Datum.signed s m) = Datum.signed s (F.units m) := by
  cases s with
  | false => exact F.signedUnits_natCast m
  | true =>
    change F.signedUnits (-(m : ℤ)) = -(F.units m : ℤ)
    rw [signedUnits_neg, signedUnits_natCast]

/-- The place of a pattern by its key. -/
def keyPlace (F : Format) (z : ℤ) : Line :=
  if z ≤ -F.infinity then ⊥ else if F.infinity ≤ z then ⊤ else .ofInt (F.signedUnits z)

theorem strictMonoOn_keyPlace (F : Format) :
    StrictMonoOn F.keyPlace (Set.Icc (-F.infinity : ℤ) F.infinity) := by
  rintro a ⟨hla, hra⟩ b ⟨hlb, hrb⟩ hab
  have hb : ¬ b ≤ -F.infinity := by omega
  have ha : ¬ F.infinity ≤ a := by omega
  unfold keyPlace
  rw [if_neg hb, if_neg ha]
  split_ifs
  · exact bot_lt_top
  · exact Line.bot_lt_ofInt _
  · exact Line.ofInt_lt_top _
  · exact Line.strictMono_ofInt (F.strictMono_signedUnits hab)

theorem place?_decode (hF : F.Regular) (h : F.isNaN p = false) :
    (F.decode p).place? = some (F.keyPlace (F.key p)) := by
  have hpos := hF.infinity_pos
  have hle : F.magnitude p ≤ F.infinity := not_lt.mp (of_decide_eq_false h)
  rcases hle.lt_or_eq with hlt | heq
  · have hlow : ¬ F.key p ≤ -F.infinity := by
      unfold key Datum.signed
      split_ifs <;> omega
    have hhigh : ¬ F.infinity ≤ F.key p := by
      unfold key Datum.signed
      split_ifs <;> omega
    rw [decode_finite hlt, keyPlace, if_neg hlow, if_neg hhigh, key, signedUnits_signed]
    rfl
  · rw [decode_infinite heq, keyPlace, key, heq]
    cases F.isNegative p with
    | false =>
      have hlow : ¬ (F.infinity : ℤ) ≤ -F.infinity := by omega
      rw [Datum.signed, if_neg Bool.false_ne_true, if_neg hlow, if_pos le_rfl]
      rfl
    | true =>
      rw [Datum.signed, if_pos rfl, if_pos le_rfl]
      rfl

/-- Away from NaN, patterns are compared by their keys. -/
theorem compare?_eq_key (hF : F.Regular) (hp : F.isNaN p = false) (hq : F.isNaN q = false) :
    F.compare? p q = some (compare (F.key p) (F.key q)) := by
  have hcompare : F.compare? p q = some (compare (F.keyPlace (F.key p)) (F.keyPlace (F.key q))) := by
    unfold compare?
    rw [Datum.compare?_eq, place?_decode hF hp, place?_decode hF hq, Option.map₂_some_some]
  rw [hcompare, ← cmp_eq_compare, ← cmp_eq_compare,
    F.strictMonoOn_keyPlace.cmp_map_eq (key_mem_iff.mpr hp) (key_mem_iff.mpr hq)]

end Format

open Format

theorem Widened.worth_eq {x y : Datum} (h : Widened x y) :
    y.place?.map binary64.worth = x.place?.map binary32.worth := by
  cases h with
  | nan => simp only [Datum.place?, Option.map_none]
  | infinite s => cases s <;> simp [Datum.place?]
  | finite s hm =>
    have hpos : (finer : ℚ) ≠ 0 := by exact_mod_cast finer_pos.ne'
    have hscale : (2 ^ binary64.scale : ℚ) = 2 ^ binary32.scale * finer := by
      exact_mod_cast two_pow_scale_binary64
    simp only [Datum.place?, Option.map_some, worth_ofInt, Datum.signed_mul_natCast, hscale]
    push_cast
    rw [mul_div_mul_right _ _ hpos]

/-- The double that a single is widened to denotes the same. -/
theorem denoted?_widen (p : ℕ) : binary64.denoted? (widen p) = binary32.denoted? p := by
  rw [denoted?_eq regular_binary64, denoted?_eq regular_binary32]
  exact (widened_decode p).worth_eq

end ScalarEval.Ieee
