import ScalarEval.Ieee.Literal

/-! The shortest decimal that reads back to a pattern. -/
namespace ScalarEval.Ieee

-- One meaning of powers, whichever other instances are in scope.
attribute [local instance (high)] instPowNat

/-- The decimal numerators of a search: `value / 10 ^ scale` is to be written with few
digits, and `back` says which numerators over `10 ^ scale` read back to the same pattern. -/
structure DecimalSearch where
  value : Nat
  back : Nat → Bool

namespace DecimalSearch

/-- The best multiple of `10 ^ k` beside the value that reads back, divided by `10 ^ k`. Of
two the nearer is taken, and the even one of two equally near. -/
def onGrid? (s : DecimalSearch) (k : Nat) : Option Nat :=
  let low := s.value / 10 ^ k
  match s.back (low * 10 ^ k), s.back ((low + 1) * 10 ^ k) with
  | true, true => some (halfEven s.value (10 ^ k))
  | true, false => some low
  | false, true => some (low + 1)
  | false, false => none

/-- The coarsest grid up to `10 ^ k` with a hit. The finest grid holds the value itself. -/
def coarsest (s : DecimalSearch) : Nat → Nat × Nat
  | 0 => (s.value, 0)
  | k + 1 => match s.onGrid? (k + 1) with
    | some n => (n, k + 1)
    | none => s.coarsest k

end DecimalSearch

namespace Format

/-- Digits and exponent of the shortest decimal that reads back to a positive number of
units. The exact decimal expansion ends after `scale` places, so the search finds one. -/
def shortest (F : Format) (units : Nat) : Nat × Int :=
  let target := F.nearest units (2 ^ F.scale)
  let search : DecimalSearch :=
    ⟨units * 5 ^ F.scale, fun n => F.nearest n (10 ^ F.scale) == target⟩
  let (digits, k) := search.coarsest ((Nat.toDigits 10 search.value).length - 1)
  (digits, k - F.scale)

/-- The literal that stands for a pattern in writing. -/
def literal (F : Format) (p : Nat) : Literal :=
  match F.decode p with
  | .nan => .nan (F.isNegative p)
  | .infinite s => .infinite s
  | .finite s u =>
    if u = 0 then .decimal s 0 0
    else
      let (digits, exponent) := F.shortest u
      .decimal s digits exponent

end Format
end ScalarEval.Ieee
