/-
Numbers of free values. An integer stays one while it fits into 64 bits, with or without a sign; any
other number is a binary64 value. A number beyond the range of those cannot be read.
-/
import Quorate.Decimal.Layout
import Quorate.Json.Numeral

namespace Quorate.Json

inductive Number where
  | int (n : Int)
  | float (x : Float)

namespace Number

instance : Inhabited Number := ⟨.int 0⟩

/-- Floats are compared as numbers, and no float equals an integer. -/
instance : BEq Number where
  beq
    | .int m, .int n => m == n
    | .float x, .float y => x == y
    | _, _ => false

/-- Whether an integer fits into 64 bits, taken as signed or as unsigned. -/
def fits (n : Int) : Bool := -0x8000000000000000 ≤ n && n < 0x10000000000000000

/-! ## Floats -/

/-- The bound of the digits that are taken into account. -/
def significandLimit : Nat := UInt64.size

/-- Appends digits to a significand while it stays below the limit. Gives also the digits left. -/
def absorb (significand : Nat) : List Nat → Nat × List Nat
  | [] => (significand, [])
  | d :: ds =>
    if significand * 10 + d < significandLimit then absorb (significand * 10 + d) ds
    else (significand, d :: ds)

/-- The largest power of ten that a float can be scaled by in one step. -/
def scaleStep : Nat := 308

def powerOfTen (k : Nat) : Float := Float.ofScientific 1 false k

/-- A float times a power of ten, in one step if the exponent allows it; a smaller exponent is
approached by divisions. A product that is infinite is none. -/
def scaled? : (steps : Nat) → Float → Int → Option Float
  | steps, x, e =>
    if e.natAbs ≤ scaleStep then
      if 0 ≤ e then
        let y := x * powerOfTen e.natAbs
        if y.isInf then none else some y
      else some (x / powerOfTen e.natAbs)
    else if x == 0 then some x
    else if 0 < e then none
    else
      match steps with
      | 0 => some 0
      | steps + 1 => scaled? steps (x / powerOfTen scaleStep) (e + scaleStep)

def statedExponent (n : Numeral) : Int :=
  match n.exponent with
  | none => 0
  | some (negative, digits) =>
    if negative then -(Numeral.value digits : Int) else Numeral.value digits

/-- The float of a numeral. Digits count as long as the significand fits into 64 bits; further ones
before the point only raise the exponent. -/
def float? (n : Numeral) : Option Float := do
  let (whole, left) := absorb 0 n.whole
  let fraction := n.fraction.getD []
  let (significand, unused) := absorb whole fraction
  let exponent := (left.length : Int) - (fraction.length - unused.length : Nat) + statedExponent n
  let x ← scaled? 4 (UInt64.ofNat significand).toFloat exponent
  some (if n.negative then -x else x)

/-! ## Reading and writing -/

def ofNumeral? (n : Numeral) : Option Number :=
  match n.integer? with
  | some i => if fits i then some (.int i) else .float <$> float? n
  | none => .float <$> float? n

def writeInt : Int → List Char
  | .ofNat n => Decimal.digitsOf n
  | .negSucc n => '-' :: Decimal.digitsOf (n + 1)

def write : Number → List Char
  | .int n => writeInt n
  | .float x => Decimal.writeFloat x

end Number

end Quorate.Json
