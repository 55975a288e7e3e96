import ScalarEval.Ieee.Rounding

/-! Addition, subtraction, multiplication, division and truncated remainder. Each computes
the exact result of two data and rounds it once. Of a NaN result no more is meant than that it is
a NaN: it is always `quietNaN` here, while platforms carry over sign and payload of an operand,
each in its own way. -/
namespace ScalarEval.Ieee

-- One meaning of powers, whichever other instances are in scope.
attribute [local instance (high)] instPowNat

namespace Datum

def negate : Datum → Datum
  | .nan => .nan
  | .infinite s => .infinite !s
  | .finite s u => .finite (!s) u

/-- Signed units of a finite datum. -/
def signed (negative : Bool) (units : Nat) : Int :=
  if negative then -(units : Int) else units

end Datum

namespace Format

/-- An exact sum of zero is `-0` only where both operands are negative. -/
def addData (F : Format) : Datum → Datum → Nat
  | .nan, _ | _, .nan => F.quietNaN
  | .infinite s, .infinite t => if s = t then F.pattern s F.infinity else F.quietNaN
  | .infinite s, .finite .. | .finite .., .infinite s => F.pattern s F.infinity
  | .finite s m, .finite t n =>
    let total := Datum.signed s m + Datum.signed t n
    if total = 0 then F.pattern (s && t) 0
    else F.ofRatio (total < 0) total.natAbs (2 ^ F.scale)

def mulData (F : Format) : Datum → Datum → Nat
  | .nan, _ | _, .nan => F.quietNaN
  | .infinite s, .infinite t => F.pattern (s ^^ t) F.infinity
  | .infinite s, .finite t u | .finite t u, .infinite s =>
    if u = 0 then F.quietNaN else F.pattern (s ^^ t) F.infinity
  | .finite s m, .finite t n => F.ofRatio (s ^^ t) (m * n) (2 ^ F.scale * 2 ^ F.scale)

/-- A nonzero dividend over a zero is an infinity; zero over zero is invalid. -/
def divData (F : Format) : Datum → Datum → Nat
  | .nan, _ | _, .nan => F.quietNaN
  | .infinite _, .infinite _ => F.quietNaN
  | .infinite s, .finite t _ => F.pattern (s ^^ t) F.infinity
  | .finite s _, .infinite t => F.pattern (s ^^ t) 0
  | .finite s m, .finite t n =>
    if n = 0 then if m = 0 then F.quietNaN else F.pattern (s ^^ t) F.infinity
    else F.ofRatio (s ^^ t) m n

/-- The remainder of division truncated toward zero has the sign of the dividend. -/
def remData (F : Format) : Datum → Datum → Nat
  | .nan, _ | _, .nan => F.quietNaN
  | .infinite _, _ => F.quietNaN
  | .finite s m, .infinite _ => F.ofRatio s m (2 ^ F.scale)
  | .finite s m, .finite _ n =>
    if n = 0 then F.quietNaN else F.ofRatio s (m % n) (2 ^ F.scale)

def add (F : Format) (p q : Nat) : Nat :=
  F.addData (F.decode p) (F.decode q)

def sub (F : Format) (p q : Nat) : Nat :=
  F.addData (F.decode p) (F.decode q).negate

def mul (F : Format) (p q : Nat) : Nat :=
  F.mulData (F.decode p) (F.decode q)

def div (F : Format) (p q : Nat) : Nat :=
  F.divData (F.decode p) (F.decode q)

def rem (F : Format) (p q : Nat) : Nat :=
  F.remData (F.decode p) (F.decode q)

end Format
end ScalarEval.Ieee
