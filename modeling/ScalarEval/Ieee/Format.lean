/-! Binary interchange formats. A pattern is a natural number read at the width of its
format; a finite value is a whole number of units, one unit being the least positive value. -/
namespace ScalarEval.Ieee

-- One meaning of powers, whichever other instances are in scope.
attribute [local instance (high)] instPowNat

/-- Field widths of an interchange format: trailing significand and biased exponent. -/
structure Format where
  fractionBits : Nat
  exponentBits : Nat
  deriving DecidableEq, Repr

def binary32 : Format := ⟨23, 8⟩

def binary64 : Format := ⟨52, 11⟩

/-- What a pattern denotes. `finite s u` is `u` units with the sign bit `s`; both zeros have
no units and keep their sign. -/
inductive Datum where
  | nan
  | infinite (negative : Bool)
  | finite (negative : Bool) (units : Nat)
  deriving DecidableEq, Repr

namespace Format

/-- The unit is `2 ^ -scale`. -/
def scale (F : Format) : Nat :=
  2 ^ (F.exponentBits - 1) - 2 + F.fractionBits

/-- The sign bit, which is also the number of magnitudes. -/
def signBit (F : Format) : Nat :=
  2 ^ (F.exponentBits + F.fractionBits)

/-- The magnitude of the infinities. Larger magnitudes are NaNs. -/
def infinity (F : Format) : Nat :=
  (2 ^ F.exponentBits - 1) * 2 ^ F.fractionBits

/-- The leading fraction bit, which marks a NaN as quiet. -/
def quietBit (F : Format) : Nat :=
  2 ^ (F.fractionBits - 1)

/-- The positive NaN without payload. It stands for every NaN that arithmetic makes, the sign and
payload of which are left to the platform. -/
def quietNaN (F : Format) : Nat :=
  F.infinity + F.quietBit

/-- A magnitude under its sign. -/
def pattern (F : Format) (negative : Bool) (magnitude : Nat) : Nat :=
  (if negative then F.signBit else 0) + magnitude

def magnitude (F : Format) (p : Nat) : Nat :=
  p % F.signBit

def isNegative (F : Format) (p : Nat) : Bool :=
  p / F.signBit % 2 == 1

/-- A finite magnitude in units. Subnormal magnitudes count units directly; each further
binade doubles the step. -/
def units (F : Format) (magnitude : Nat) : Nat :=
  let binade := magnitude / 2 ^ F.fractionBits
  if binade = 0 then magnitude
  else (2 ^ F.fractionBits + magnitude % 2 ^ F.fractionBits) * 2 ^ (binade - 1)

/-- Bits above the width of the format are not read. -/
def decode (F : Format) (p : Nat) : Datum :=
  let m := F.magnitude p
  if F.infinity < m then .nan
  else if m = F.infinity then .infinite (F.isNegative p)
  else .finite (F.isNegative p) (F.units m)

def isNaN (F : Format) (p : Nat) : Bool :=
  F.infinity < F.magnitude p

end Format
end ScalarEval.Ieee
