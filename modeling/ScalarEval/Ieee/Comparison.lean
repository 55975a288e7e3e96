import ScalarEval.Ieee.Arithmetic

/-! Comparison of denoted values. A NaN is unordered, also against itself. -/
namespace ScalarEval.Ieee

/-- The order of the values of two data, `none` where one is NaN. The two zeros are equal. -/
def Datum.compare? : Datum → Datum → Option Ordering
  | .nan, _ | _, .nan => none
  | .infinite s, .infinite t => some (compare t.toNat s.toNat)
  | .infinite s, .finite .. => some (if s then .lt else .gt)
  | .finite .., .infinite t => some (if t then .gt else .lt)
  | .finite s m, .finite t n => some (compare (signed s m) (signed t n))

def Format.compare? (F : Format) (p q : Nat) : Option Ordering :=
  (F.decode p).compare? (F.decode q)

end ScalarEval.Ieee
