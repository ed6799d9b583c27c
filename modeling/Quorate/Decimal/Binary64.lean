/-
The finite non-negative binary64 values as exact numbers m · 2^q, and the interval of reals that are
rounded to one of them.
-/

namespace Quorate.Decimal

/-- A number m · 2^q. `narrowBelow` says that the value below is half as far away as the value
above, as it is at a power of two. -/
structure Binary where
  m : Nat
  q : Int
  narrowBelow : Bool
  deriving DecidableEq

/-- The number behind the bits of a finite value, less its sign. -/
def Binary.ofBits (bits : UInt64) : Binary :=
  let exponent := ((bits >>> 52) &&& 0x7FF).toNat
  let fraction := (bits &&& 0xFFFFFFFFFFFFF).toNat
  if exponent = 0 then ⟨fraction, -1074, false⟩
  else ⟨0x10000000000000 + fraction, exponent - 1075, fraction == 0 && 1 < exponent⟩

/-- A decimal: digits · 10^exponent. -/
structure Dec where
  digits : Nat
  exponent : Int
  deriving DecidableEq

def twos (k : Nat) : Nat := Nat.pow 2 k

def tens (k : Nat) : Nat := Nat.pow 10 k

/-- Compares a · 10^i with n · 2^j. -/
def compareScaled (a : Nat) (i : Int) (n : Nat) (j : Int) : Ordering :=
  compare (a * tens i.toNat * twos (-j).toNat) (n * twos j.toNat * tens (-i).toNat)

/-- Whether a decimal is rounded to the value: it lies between the midpoints towards the two
neighbours, or on one of them if `m` is even. -/
def Binary.readsBack (x : Binary) (d : Dec) : Bool :=
  let low := if x.narrowBelow then 4 * x.m - 1 else 4 * x.m - 2
  let closed := x.m % 2 == 0
  let atLow := compareScaled d.digits d.exponent low (x.q - 2)
  let atHigh := compareScaled d.digits d.exponent (4 * x.m + 2) (x.q - 2)
  (atLow == .gt || (closed && atLow == .eq)) && (atHigh == .lt || (closed && atHigh == .eq))

end Quorate.Decimal
