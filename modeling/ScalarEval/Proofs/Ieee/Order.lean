import Mathlib
import ScalarEval.Ieee.Comparison

/-! The order of denoted values. All data but NaN have a place on one line, from the negative
infinity over the whole numbers of units to the positive infinity, and are compared by it. -/
namespace ScalarEval.Ieee

/-- The integers with an end on either side. -/
abbrev Line := WithBot (WithTop ℤ)

namespace Line

def ofInt (n : ℤ) : Line := ((n : WithTop ℤ) : Line)

theorem strictMono_ofInt : StrictMono ofInt :=
  WithBot.coe_strictMono.comp WithTop.coe_strictMono

theorem bot_lt_ofInt (n : ℤ) : ⊥ < ofInt n :=
  WithBot.bot_lt_coe _

theorem ofInt_lt_top (n : ℤ) : ofInt n < ⊤ :=
  WithBot.coe_lt_coe.mpr (WithTop.coe_lt_top n)

theorem compare_of_strictMono {α β : Type} [LinearOrder α] [LinearOrder β] {f : α → β}
    (hf : StrictMono f) (a b : α) : compare (f a) (f b) = compare a b := by
  rw [← cmp_eq_compare, ← cmp_eq_compare, hf.cmp_map_eq]

end Line

namespace Datum

/-- The zeros share a place. A NaN has none. -/
def place? : Datum → Option Line
  | .nan => none
  | .infinite s => some (if s then ⊥ else ⊤)
  | .finite s u => some (.ofInt (signed s u))

theorem place?_eq_none_iff {x : Datum} : x.place? = none ↔ x = .nan := by
  cases x <;> simp [place?]

theorem compare?_eq (x y : Datum) : x.compare? y = Option.map₂ compare x.place? y.place? := by
  cases x with
  | nan => cases y <;> rfl
  | infinite s =>
    cases y with
    | nan => rfl
    | infinite t => cases s <;> cases t <;> rfl
    | finite t n =>
      cases s with
      | true => exact congrArg some (compare_lt_iff_lt.mpr (Line.bot_lt_ofInt _)).symm
      | false => exact congrArg some (compare_gt_iff_gt.mpr (Line.ofInt_lt_top _)).symm
  | finite s m =>
    cases y with
    | nan => rfl
    | infinite t =>
      cases t with
      | true => exact congrArg some (compare_gt_iff_gt.mpr (Line.bot_lt_ofInt _)).symm
      | false => exact congrArg some (compare_lt_iff_lt.mpr (Line.ofInt_lt_top _)).symm
    | finite t n => exact congrArg some (Line.compare_of_strictMono Line.strictMono_ofInt _ _).symm

end Datum

end ScalarEval.Ieee
