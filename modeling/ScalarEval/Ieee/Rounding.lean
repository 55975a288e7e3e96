import ScalarEval.Ieee.Format

/-! Rounding an exact ratio to a format: to nearest, ties to even, with gradual underflow and
overflow to infinity. Every operation of this library that rounds does so here, once. -/
namespace ScalarEval.Ieee

-- One meaning of powers, whichever other instances are in scope.
attribute [local instance (high)] instPowNat

/-- The integer nearest to `n / d`, the even one at a midpoint. -/
def halfEven (n d : Nat) : Nat :=
  let q := n / d
  let r := n % d
  if 2 * r < d then q else if d < 2 * r then q + 1 else q + q % 2

namespace Format

/-- The magnitude nearest to `num / den`. A significand rounded up to the next power of two
carries into the exponent field, so it needs no case of its own. -/
def nearest (F : Format) (num den : Nat) : Nat :=
  let n := num * 2 ^ F.scale
  let binade := (n / den).log2 - F.fractionBits
  min (binade * 2 ^ F.fractionBits + halfEven n (den * 2 ^ binade)) F.infinity

def ofRatio (F : Format) (negative : Bool) (num den : Nat) : Nat :=
  F.pattern negative (F.nearest num den)

/-- The pattern of `G` nearest to the value of `p` at `F`. A NaN keeps its sign and the
leading part of its payload, and becomes quiet. -/
def convert (F G : Format) (p : Nat) : Nat :=
  match F.decode p with
  | .finite s u => G.ofRatio s u (2 ^ F.scale)
  | .infinite s => G.pattern s G.infinity
  | .nan =>
    let payload := F.magnitude p % F.quietBit * G.quietBit / F.quietBit
    G.pattern (F.isNegative p) (G.quietNaN + payload)

end Format

/-- The double that equals a single. -/
def widen (p : Nat) : Nat :=
  binary32.convert binary64 p

/-- The single nearest to a double. -/
def narrow (p : Nat) : Nat :=
  binary64.convert binary32 p

end ScalarEval.Ieee
