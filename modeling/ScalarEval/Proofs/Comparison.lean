import Mathlib
import ScalarEval.Proofs.Ieee.Order
import ScalarEval.Proofs.Ieee.Pattern
import ScalarEval.Proofs.Integer

/-! The six comparisons as views of one order. Words of a floating kind are ordered by their
values, with NaN outside the order; words of every other kind by themselves, read as unsigned. -/
namespace ScalarEval

open Ieee

namespace Comparison

/-- The comparison that is true of operands in this order and in no other. -/
def ofOrdering : Ordering → Comparison
  | .lt => lt
  | .eq => eq
  | .gt => gt

theorem ofOrdering_cases (o : Ordering) :
    ofOrdering o = lt ∨ ofOrdering o = eq ∨ ofOrdering o = gt := by
  cases o <;> decide

theorem holds_some_iff {c : Comparison} {o : Ordering} (hc : c = lt ∨ c = eq ∨ c = gt) :
    c.holds (some o) = true ↔ c = ofOrdering o := by
  rcases hc with rfl | rfl | rfl <;> cases o <;> decide

/-- The relation that a comparison tests. -/
def Rel {α : Type} [LinearOrder α] : Comparison → α → α → Prop
  | eq, a, b => a = b
  | ne, a, b => a ≠ b
  | lt, a, b => a < b
  | le, a, b => a ≤ b
  | gt, a, b => b < a
  | ge, a, b => b ≤ a

theorem holds_compare_iff {α : Type} [LinearOrder α] (c : Comparison) (a b : α) :
    c.holds (some (compare a b)) = true ↔ c.Rel a b := by
  rcases lt_trichotomy a b with h | rfl | h
  · rw [compare_lt_iff_lt.mpr h]
    cases c <;> simp [holds, Rel, h, h.le, h.ne, not_lt.mpr h.le]
  · rw [compare_eq_iff_eq.mpr rfl]
    cases c <;> simp [holds, Rel]
  · rw [compare_gt_iff_gt.mpr h]
    cases c <;> simp [holds, Rel, h, h.le, h.ne', not_lt.mpr h.le]

end Comparison

theorem Value.ofBool_inj {b c : Bool} : Value.ofBool b = Value.ofBool c ↔ b = c := by
  cases b <;> cases c <;> decide

/-- The evaluation succeeds with the truth value of a proposition, and without overflow. -/
def Evaluation.Decides (x : Evaluation Result) (p : Prop) : Prop :=
  ∃ b, x.outcome = .ok ⟨.ofBool b, false⟩ ∧ (b = true ↔ p)

/-- Only equivalent propositions are decided by one evaluation. -/
theorem Evaluation.Decides.iff {x : Evaluation Result} {p q : Prop} (h : x.Decides p) :
    x.Decides q ↔ (p ↔ q) := by
  obtain ⟨b, hb, hp⟩ := h
  constructor
  · rintro ⟨c, hc, hq⟩
    have hvalue := congrArg Result.value (Except.ok.inj (hb.symm.trans hc))
    rw [← hp, ← hq, Value.ofBool_inj.mp hvalue]
  · exact fun hpq => ⟨b, hb, hp.trans hpq⟩

namespace Kind

/-- Whether a word is a NaN at a kind. Only floating kinds have one. -/
def IsNaN (k : Kind) (w : BitVec 64) : Prop :=
  ∃ F ∈ k.format?, F.isNaN w.toNat = true

/-- The place of a word among those with which it is compared at a kind. -/
def place? (k : Kind) (w : BitVec 64) : Option Line :=
  match k.format? with
  | some F => (F.decode w.toNat).place?
  | none => some (.ofInt w.toNat)

theorem place?_eq_none_iff {k : Kind} {w : BitVec 64} : k.place? w = none ↔ k.IsNaN w := by
  unfold place? IsNaN
  cases k.format? with
  | none => simp
  | some F => simp [Datum.place?_eq_none_iff, Format.decode_eq_nan_iff]

end Kind

namespace Evaluate
variable {k : Kind} {l r x : BitVec 64}

theorem order_eq (k : Kind) (l r : BitVec 64) :
    order k l r = Option.map₂ compare (k.place? l) (k.place? r) := by
  unfold order Kind.place?
  cases k.format? with
  | none =>
    have hf : StrictMono fun n : ℕ => Line.ofInt n :=
      Line.strictMono_ofInt.comp Nat.strictMono_cast
    exact congrArg some (Line.compare_of_strictMono hf _ _).symm
  | some F => exact Datum.compare?_eq _ _

/-- Words of other kinds are compared as they are. -/
theorem order_of_isFloating_eq_false (hk : k.isFloating = false) (l r : BitVec 64) :
    order k l r = some (compare l.toNat r.toNat) := by
  have hformat : k.format? = none := by
    revert hk
    cases k <;> decide
  simp only [order, hformat]

theorem order_eq_none_iff : order k l r = none ↔ k.IsNaN l ∨ k.IsNaN r := by
  rw [order_eq, Option.map₂_eq_none_iff, Kind.place?_eq_none_iff, Kind.place?_eq_none_iff]

theorem order_eq_lt_iff :
    order k l r = some .lt ↔ ∃ a ∈ k.place? l, ∃ b ∈ k.place? r, a < b := by
  simp [order_eq, Option.map₂_eq_some_iff, compare_lt_iff_lt]

/-- Words are equal where they have a place in common. -/
theorem order_eq_eq_iff :
    order k l r = some .eq ↔ ∃ a, k.place? l = some a ∧ k.place? r = some a := by
  simp [order_eq, Option.map₂_eq_some_iff]

theorem order_swap (k : Kind) (l r : BitVec 64) :
    order k r l = (order k l r).map Ordering.swap := by
  rw [order_eq, order_eq, Option.map_map₂, Option.map₂_swap]
  congr
  funext a b
  exact Std.OrientedCmp.eq_swap

theorem order_lt_trans (hlr : order k l r = some .lt) (hrx : order k r x = some .lt) :
    order k l x = some .lt := by
  obtain ⟨a, ha, b, hb, hab⟩ := order_eq_lt_iff.mp hlr
  obtain ⟨b', hb', c, hc, hbc⟩ := order_eq_lt_iff.mp hrx
  obtain rfl := Option.mem_unique hb hb'
  exact order_eq_lt_iff.mpr ⟨a, ha, c, hc, hab.trans hbc⟩

/-- Operands that no comparison tells apart. -/
structure SamePlace (o o' : Operand) : Prop where
  alloc : o.value.alloc = o'.value.alloc
  kind : o.kind = o'.kind
  place : o'.kind.place? o.value.bits = o'.kind.place? o'.value.bits

theorem SamePlace.refl (o : Operand) : SamePlace o o :=
  ⟨rfl, rfl, rfl⟩

theorem samePlace_of_order_eq (a : Option AllocId) (h : order k l r = some .eq) :
    SamePlace ⟨⟨l, a⟩, k⟩ ⟨⟨r, a⟩, k⟩ := by
  obtain ⟨p, hl, hr⟩ := order_eq_eq_iff.mp h
  exact ⟨rfl, rfl, hl.trans hr.symm⟩

theorem onWords?_comparison_eq (c : Comparison) (lk rk : Kind) (l r : BitVec 64) :
    onWords? (.comparison c) lk rk l r =
      if lk = rk then
        some (.ok ⟨.ofBool (c.holds (Option.map₂ compare (lk.place? l) (rk.place? r))), false⟩)
      else none := by
  simp only [onWords?]
  split
  next hk => rw [hk, order_eq]
  next => rfl

theorem ending_unrelated_comparison (c : Comparison) (p q p' q' : Pointer) :
    (unrelated (.comparison c) p q).ending = (unrelated (.comparison c) p' q').ending := by
  cases c with
  | eq | ne => rfl
  | lt | le | gt | ge => rw [ending_unrelated_ordering rfl, ending_unrelated_ordering rfl]

/-- Comparisons read allocations, kinds and places, also where they fail. -/
theorem ending_comparison_congr (c : Comparison) {l l' r r' : Operand} (hl : SamePlace l l')
    (hr : SamePlace r r') :
    (binary (.comparison c) l r).ending = (binary (.comparison c) l' r').ending := by
  by_cases ha : l.value.alloc = r.value.alloc
  · have ha' : l'.value.alloc = r'.value.alloc := by rw [← hl.alloc, ← hr.alloc, ha]
    rw [ending_binary_related _ ha, ending_binary_related _ ha', ending_unimplementedBinary_eq,
      ending_unimplementedBinary_eq]
    simp only [onWords?_comparison_eq, Operand.isOk_describe, hl.alloc, hr.alloc, hl.place,
      hr.place, hl.kind, hr.kind]
  · have ha' : l'.value.alloc ≠ r'.value.alloc := by rwa [← hl.alloc, ← hr.alloc]
    rw [ending_binary_unrelated _ ha, ending_binary_unrelated _ ha',
      ending_unrelated_comparison c]

theorem outcome_comparison (a : Option AllocId) (k : Kind) (c : Comparison) (l r : BitVec 64) :
    (binary (.comparison c) ⟨⟨l, a⟩, k⟩ ⟨⟨r, a⟩, k⟩).outcome =
      .ok ⟨.ofBool (c.holds (order k l r)), false⟩ := by
  have hw : onWords? (.comparison c) k k l r = some (.ok ⟨.ofBool (c.holds (order k l r)), false⟩) :=
    if_pos rfl
  exact outcome_of_onWords (l := ⟨⟨l, a⟩, k⟩) (r := ⟨⟨r, a⟩, k⟩) rfl hw

theorem decides_comparison (a : Option AllocId) (k : Kind) (c : Comparison) (l r : BitVec 64) :
    (binary (.comparison c) ⟨⟨l, a⟩, k⟩ ⟨⟨r, a⟩, k⟩).Decides (c.holds (order k l r) = true) :=
  ⟨_, outcome_comparison a k c l r, Iff.rfl⟩

/-- A comparison at a kind, of words in one allocation or of plain words, ends with `true`. -/
def Compares (a : Option AllocId) (k : Kind) (c : Comparison) (l r : BitVec 64) : Prop :=
  (binary (.comparison c) ⟨⟨l, a⟩, k⟩ ⟨⟨r, a⟩, k⟩).outcome = .ok ⟨.ofBool true, false⟩

/-- The laws of an order under which some words are unordered, and different words may be
equal. -/
structure ComparisonLaws (a : Option AllocId) (k : Kind) : Prop where
  succeeds (c : Comparison) (l r : BitVec 64) : ∃ b,
    (binary (.comparison c) ⟨⟨l, a⟩, k⟩ ⟨⟨r, a⟩, k⟩).outcome = .ok ⟨.ofBool b, false⟩
  ne_iff (l r : BitVec 64) : Compares a k .ne l r ↔ ¬ Compares a k .eq l r
  le_iff (l r : BitVec 64) : Compares a k .le l r ↔ Compares a k .lt l r ∨ Compares a k .eq l r
  ge_iff (l r : BitVec 64) : Compares a k .ge l r ↔ Compares a k .gt l r ∨ Compares a k .eq l r
  ordered (l r : BitVec 64) : ¬ k.IsNaN l → ¬ k.IsNaN r →
    ∃! c, (c = .lt ∨ c = .eq ∨ c = .gt) ∧ Compares a k c l r
  unordered (l r : BitVec 64) : k.IsNaN l ∨ k.IsNaN r → ∀ c, Compares a k c l r ↔ c = .ne
  lt_trans (l r x : BitVec 64) : Compares a k .lt l r → Compares a k .lt r x →
    Compares a k .lt l x
  eq_left (l r : BitVec 64) : Compares a k .eq l r → ∀ (c : Comparison) (o : Operand),
    (binary (.comparison c) ⟨⟨l, a⟩, k⟩ o).ending = (binary (.comparison c) ⟨⟨r, a⟩, k⟩ o).ending
  eq_right (l r : BitVec 64) : Compares a k .eq l r → ∀ (c : Comparison) (o : Operand),
    (binary (.comparison c) o ⟨⟨l, a⟩, k⟩).ending = (binary (.comparison c) o ⟨⟨r, a⟩, k⟩).ending

section
variable {a : Option AllocId} {c : Comparison}

theorem compares_iff : Compares a k c l r ↔ c.holds (order k l r) = true := by
  unfold Compares
  rw [outcome_comparison]
  cases c.holds (order k l r) <;> decide

theorem compares_lt_iff : Compares a k .lt l r ↔ order k l r = some .lt := by
  simp [compares_iff, Comparison.holds]

theorem compares_eq_iff : Compares a k .eq l r ↔ order k l r = some .eq := by
  simp [compares_iff, Comparison.holds]

/-- Of ordered words exactly one of the strict comparisons and equality is true. -/
theorem existsUnique_compares (hl : ¬ k.IsNaN l) (hr : ¬ k.IsNaN r) :
    ∃! c, (c = .lt ∨ c = .eq ∨ c = .gt) ∧ Compares a k c l r := by
  simp only [compares_iff]
  cases h : order k l r with
  | none => exact absurd (order_eq_none_iff.mp h) (not_or.mpr ⟨hl, hr⟩)
  | some o =>
    have hc := Comparison.ofOrdering_cases o
    refine ⟨.ofOrdering o, ⟨hc, (Comparison.holds_some_iff hc).mpr rfl⟩, ?_⟩
    rintro c ⟨hc, h⟩
    exact (Comparison.holds_some_iff hc).mp h

theorem compares_iff_of_isNaN (h : k.IsNaN l ∨ k.IsNaN r) : Compares a k c l r ↔ c = .ne := by
  rw [compares_iff, order_eq_none_iff.mpr h]
  cases c <;> decide

end

/-- At every kind the comparisons obey the laws of one order, in each allocation and on plain
words. -/
theorem comparisonLaws (a : Option AllocId) (k : Kind) : ComparisonLaws a k where
  succeeds c l r := ⟨_, outcome_comparison a k c l r⟩
  ne_iff l r := by
    simp only [compares_iff]
    rcases order k l r with _ | _ | _ | _ <;> decide
  le_iff l r := by
    simp only [compares_iff]
    rcases order k l r with _ | _ | _ | _ <;> decide
  ge_iff l r := by
    simp only [compares_iff]
    rcases order k l r with _ | _ | _ | _ <;> decide
  ordered l r := existsUnique_compares
  unordered l r h c := compares_iff_of_isNaN h
  lt_trans l r x hlr hrx :=
    compares_lt_iff.mpr (order_lt_trans (compares_lt_iff.mp hlr) (compares_lt_iff.mp hrx))
  eq_left l r h c o :=
    ending_comparison_congr c (samePlace_of_order_eq a (compares_eq_iff.mp h)) (.refl o)
  eq_right l r h c o :=
    ending_comparison_congr c (.refl o) (samePlace_of_order_eq a (compares_eq_iff.mp h))

/-- Words of signed kinds are unsigned in comparisons: that of -1 comes after that of 1. -/
example : Compares none .i8 .gt (Kind.i8.extend (-1)) (Kind.i8.extend 1) :=
  compares_iff.mpr (by decide)

end Evaluate
end ScalarEval
