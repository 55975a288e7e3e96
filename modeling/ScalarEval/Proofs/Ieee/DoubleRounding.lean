import Mathlib
import ScalarEval.Proofs.Ieee.Midpoint
import ScalarEval.Proofs.Ieee.Widening

/-! Rounding twice. The first of two roundings changes the outcome of the second only where it takes
a number to a midpoint of the second, or across one. A midpoint of singles is itself a double, so no
number is taken across it, and only a number within half a step of doubles is taken to it. -/
namespace ScalarEval.Ieee
namespace Format
variable {F : Format} {x v : ℚ} {m j : ℕ}

/-- Conversion rounds the value that the first rounding left. -/
theorem convert_ofRatio (G : Format) (negative : Bool) {num den : ℕ}
    (h : F.nearest num den < F.infinity) :
    F.convert G (F.ofRatio negative num den) =
      G.ofRatio negative (F.units (F.nearest num den)) (2 ^ F.scale) := by
  unfold convert
  rw [ofRatio, decode_pattern_finite h]

theorem Encloses.le_of_le_units (h : F.Encloses x m) (hx : x ≤ F.units j) : m ≤ j := by
  by_contra hlt
  have hmid := (h.lower j (not_le.mp hlt)).1
  have hj := F.units_lt_midpoint j
  linarith

theorem Encloses.le_of_units_le (h : F.Encloses x m) (hj : j ≤ F.infinity) (hx : F.units j ≤ x) :
    j ≤ m := by
  by_contra hlt
  have hm : m < j := not_le.mp hlt
  have hmid := (h.upper (j - 1) (by omega) (by omega)).1
  have hj' := F.midpoint_lt_units (show j - 1 < j by omega)
  linarith

/-- A normal magnitude has all bits of a significand. -/
theorem two_pow_mul_step_le (F : Format) (hm : 2 ^ F.fractionBits ≤ m) :
    2 ^ F.fractionBits * 2 ^ (m / 2 ^ F.fractionBits - 1) ≤ F.units m := by
  obtain ⟨b, q, rfl, hq, hn⟩ := F.exists_significand m
  rw [units_significand F hq hn, div_significand F hq hn]
  refine Nat.mul_le_mul_right _ ?_
  rcases hn with rfl | hn
  · omega
  · exact hn

/-- The relative error of a rounding to a normal magnitude. -/
theorem Encloses.abs_sub_mul_le (h : F.Encloses x m) (hm : m < F.infinity)
    (hn : 2 ^ F.fractionBits ≤ m) :
    |x - F.units m| * 2 ^ (F.fractionBits + 1) ≤ F.units m := by
  have hp : 0 < 2 ^ F.fractionBits := by positivity
  obtain ⟨i, rfl⟩ : ∃ i, m = i + 1 := Nat.exists_eq_succ_of_ne_zero (by omega)
  have hfull : (2 ^ F.fractionBits * 2 ^ ((i + 1) / 2 ^ F.fractionBits - 1) : ℚ) ≤
      F.units (i + 1) := by exact_mod_cast F.two_pow_mul_step_le hn
  have hbelow : (F.units (i + 1) : ℚ) = F.units i + 2 ^ (i / 2 ^ F.fractionBits - 1) := by
    exact_mod_cast F.units_succ i
  have habove : (F.units (i + 1 + 1) : ℚ) =
      F.units (i + 1) + 2 ^ ((i + 1) / 2 ^ F.fractionBits - 1) := by
    exact_mod_cast F.units_succ (i + 1)
  have hstep : (2 ^ (i / 2 ^ F.fractionBits - 1) : ℚ) ≤
      2 ^ ((i + 1) / 2 ^ F.fractionBits - 1) :=
    pow_le_pow_right₀ (by norm_num) (Nat.sub_le_sub_right (Nat.div_le_div_right i.le_succ) 1)
  have hlower := (h.lower i i.lt_succ_self).1
  have hupper := (h.upper (i + 1) le_rfl hm).1
  unfold midpoint at hlower hupper
  have hhalf : |x - F.units (i + 1)| ≤ 2 ^ ((i + 1) / 2 ^ F.fractionBits - 1) / 2 := by
    rw [abs_le]
    constructor <;> linarith
  calc
    |x - F.units (i + 1)| * 2 ^ (F.fractionBits + 1) ≤
        2 ^ ((i + 1) / 2 ^ F.fractionBits - 1) / 2 * 2 ^ (F.fractionBits + 1) :=
      mul_le_mul_of_nonneg_right hhalf (by positivity)
    _ = 2 ^ F.fractionBits * 2 ^ ((i + 1) / 2 ^ F.fractionBits - 1) := by ring
    _ ≤ F.units (i + 1) := hfull

/-- Rounding at full precision takes no number to `v`, unless it is `v`. -/
def Separates (F : Format) (x v : ℚ) : Prop :=
  |x - v| * 2 ^ (F.fractionBits + 1) ≤ v → x = v

theorem separates_mul {c : ℚ} (hc : 0 < c) : F.Separates (x * c) (v * c) ↔ F.Separates x v := by
  have hscale : |x * c - v * c| * 2 ^ (F.fractionBits + 1) =
      |x - v| * 2 ^ (F.fractionBits + 1) * c := by
    rw [← sub_mul, abs_mul, abs_of_pos hc]
    ring
  unfold Separates
  rw [hscale, mul_le_mul_iff_left₀ hc, mul_left_inj' hc.ne']

/-- Rounding keeps the side of a normal value from which it separates a number. -/
theorem Encloses.same_side (h : F.Encloses x m) (hm : m < F.infinity) (hj : j < F.infinity)
    (hn : 2 ^ F.fractionBits ≤ j) (hsep : F.Separates x (F.units j)) :
    ((F.units j : ℚ) ≤ x ↔ (F.units j : ℚ) ≤ F.units m) ∧
      (x ≤ F.units j ↔ (F.units m : ℚ) ≤ F.units j) := by
  have hmono : ∀ i k, (F.units i : ℚ) ≤ F.units k ↔ i ≤ k := fun i k => by
    rw [Nat.cast_le, F.units_strictMono.le_iff_le]
  have hne : m = j → x = F.units j := by
    rintro rfl
    exact hsep (h.abs_sub_mul_le hm hn)
  rw [hmono, hmono]
  rcases lt_trichotomy x (F.units j) with hlt | heq | hgt
  · have hle := h.le_of_le_units hlt.le
    have hmj : m ≠ j := fun hmj => hlt.ne (hne hmj)
    exact ⟨⟨fun hx => absurd hlt (not_lt.mpr hx), fun hx => by omega⟩, fun _ => hle, fun _ => hlt.le⟩
  · have hle := h.le_of_le_units heq.le
    have hge := h.le_of_units_le hj.le heq.ge
    exact ⟨⟨fun _ => hge, fun _ => heq.ge⟩, fun _ => hle, fun _ => heq.le⟩
  · have hge := h.le_of_units_le hj.le hgt.le
    have hmj : m ≠ j := fun hmj => hgt.ne' (hne hmj)
    exact ⟨⟨fun _ => hge, fun _ => hgt.le⟩, fun hx => absurd hgt (not_lt.mpr hx), fun hx => by omega⟩

end Format

open Format

/-- Twice a midpoint of singles: a significand of one more bit. -/
theorem exists_midpoint_eq {j : ℕ} (hj : j < binary32.infinity) :
    ∃ b c, b ≤ 253 ∧ 0 < c ∧ c < 2 ^ 25 ∧ binary32.midpoint j * 2 = (c * 2 ^ b : ℕ) := by
  obtain ⟨b, q, hb, hq, hn, rfl, hunits⟩ := exists_single_significand hj
  have hnext : binary32.units (b * 2 ^ 23 + (q + 1)) = (q + 1) * 2 ^ b :=
    units_significand_le binary32 hq (hn.imp id fun h => h.trans q.le_succ)
  refine ⟨b, 2 * q + 1, hb, by omega, by omega, ?_⟩
  unfold Format.midpoint
  rw [hunits, add_assoc, hnext]
  push_cast
  ring

/-- Units of doubles in a unit of singles. -/
def finer : ℕ :=
  2 ^ (binary64.scale - binary32.scale)

theorem finer_pos : 0 < finer :=
  Nat.two_pow_pos _

theorem two_pow_scale_binary64 : 2 ^ binary64.scale = 2 ^ binary32.scale * finer := by
  unfold finer
  rw [← pow_add, Nat.add_sub_cancel' (by decide)]

/-- Each midpoint of singles is a normal double. -/
theorem exists_double_midpoint {j : ℕ} (hj : j < binary32.infinity) :
    ∃ m < binary64.infinity, 2 ^ 52 ≤ m ∧ (binary64.units m : ℚ) = binary32.midpoint j * finer := by
  obtain ⟨b, c, hb, hc, hshort, hmid⟩ := exists_midpoint_eq hj
  obtain ⟨e, he, hfiner⟩ : ∃ e, e = 924 ∧ finer = 2 * 2 ^ e := by
    have hscale : binary64.scale - binary32.scale = 924 + 1 := by decide
    exact ⟨924, rfl, by rw [finer, hscale, pow_succ']⟩
  obtain ⟨m, hm, hunits⟩ := binary64.exists_units_eq (k := b + e) hc
    (hshort.trans (by decide)) (by change 52 ≤ b + e; omega)
    (by change b + e + 2 < 2 ^ 11; omega)
  refine ⟨m, hm, ?_, ?_⟩
  · have hleast : binary64.units (2 ^ 52) = 2 ^ 52 :=
      (units_significand binary64 (b := 0) (q := 2 ^ 52) (by decide) (.inl rfl)).trans
        (Nat.mul_one _)
    rw [← binary64.units_strictMono.le_iff_le, hleast, hunits]
    calc
      2 ^ 52 ≤ 2 ^ (b + e) := Nat.pow_le_pow_right (by norm_num) (by omega)
      _ ≤ c * 2 ^ (b + e) := Nat.le_mul_of_pos_left _ hc
  · rw [hunits, hfiner, pow_add]
    push_cast at hmid ⊢
    linear_combination (-2 ^ e : ℚ) * hmid

/-- A ratio that no midpoint of singles attracts when it is rounded to a double, and whose double
is finite. -/
structure Innocuous (num den : ℕ) : Prop where
  pos : 0 < den
  bounded : num ≤ 2 ^ (2 * binary32.scale) * den
  separated : ∀ j < binary32.infinity,
    binary64.Separates (num * 2 ^ binary32.scale / den) (binary32.midpoint j)

namespace Innocuous
variable {num den : ℕ}

theorem nearest_lt (h : Innocuous num den) : binary64.nearest num den < binary64.infinity := by
  obtain ⟨m, hm, hunits⟩ := binary64.exists_units_eq (a := 1)
    (k := 2 * binary32.scale + binary64.scale) (by decide) (by decide) (by decide) (by decide)
  refine lt_of_le_of_lt ((encloses_nearest (by decide) num h.pos).le_of_le_units ?_) hm
  have hden : (0 : ℚ) < den := by exact_mod_cast h.pos
  rw [hunits, div_le_iff₀ hden, one_mul, pow_add]
  have hbounded := Nat.mul_le_mul_right (2 ^ binary64.scale) h.bounded
  rw [Nat.mul_right_comm] at hbounded
  exact_mod_cast hbounded

/-- Rounding to a double first makes no difference to the single. -/
theorem nearest_nearest (h : Innocuous num den) :
    binary32.nearest (binary64.units (binary64.nearest num den)) (2 ^ binary64.scale) =
      binary32.nearest num den := by
  have hfiner : (0 : ℚ) < finer := by exact_mod_cast finer_pos
  have hwide := encloses_nearest (F := binary64) (by decide) num h.pos
  have honce := encloses_nearest (F := binary32) (by decide) num h.pos
  have htwice := encloses_nearest (F := binary32) (by decide)
    (binary64.units (binary64.nearest num den)) (show 0 < 2 ^ binary64.scale by positivity)
  have hscale : (2 ^ binary64.scale : ℚ) = 2 ^ binary32.scale * finer := by
    exact_mod_cast two_pow_scale_binary64
  refine htwice.unique (honce.congr fun j hj => ?_)
  obtain ⟨v, hv, hnormal, hunits⟩ := exists_double_midpoint hj
  have hx : (num * 2 ^ binary64.scale / den : ℚ) = num * 2 ^ binary32.scale / den * finer := by
    rw [hscale]
    ring
  have hy : (binary64.units (binary64.nearest num den) : ℚ) =
      binary64.units (binary64.nearest num den) * 2 ^ binary32.scale / (2 ^ binary64.scale : ℕ) *
        finer := by
    push_cast
    rw [hscale]
    field_simp
  have hsep : binary64.Separates (num * 2 ^ binary64.scale / den) (binary64.units v) := by
    rw [hx, hunits, separates_mul hfiner]
    exact h.separated j hj
  have hside := hwide.same_side h.nearest_lt hv hnormal hsep
  rw [hx, hy, hunits] at hside
  simp only [mul_le_mul_iff_left₀ hfiner] at hside
  exact hside

theorem narrow_ofRatio (h : Innocuous num den) (negative : Bool) :
    narrow (binary64.ofRatio negative num den) = binary32.ofRatio negative num den := by
  unfold narrow
  rw [convert_ofRatio binary32 negative h.nearest_lt]
  unfold ofRatio
  rw [h.nearest_nearest]

end Innocuous

end ScalarEval.Ieee
