/-
Written numbers: a sign, digits, a fraction and an exponent, as the JSON grammar has them. A numeral
keeps what was written, so that `1`, `1.0` and `1e0` stay apart.
-/

namespace Quorate.Json

/-- A written number. Digits are given by their values. -/
structure Numeral where
  negative : Bool
  whole : List Nat
  fraction : Option (List Nat)
  exponent : Option (Bool × List Nat)
  deriving DecidableEq, Repr

namespace Numeral

def isDigit (b : UInt8) : Bool := 48 ≤ b && b ≤ 57

/-- The number that digits stand for. -/
def value (digits : List Nat) : Nat := digits.foldl (fun n d => n * 10 + d) 0

/-- Splits off the leading digits, of which there has to be one. -/
def digits? (bs : List UInt8) : Option (List Nat × List UInt8) :=
  match bs.takeWhile isDigit with
  | [] => none
  | ds => some (ds.map (·.toNat - 48), bs.dropWhile isDigit)

/-- The digits before the point: a zero stands alone. -/
def whole? (bs : List UInt8) : Option (List Nat × List UInt8) :=
  match digits? bs with
  | some (0 :: _ :: _, _) => none
  | found => found

/-- The part after a point, if there is a point. -/
def fraction? (bs : List UInt8) : Option (Option (List Nat) × List UInt8) :=
  match bs with
  | 46 :: rest => (fun r => (some r.1, r.2)) <$> digits? rest
  | _ => some (none, bs)

/-- The sign of an exponent, true for a minus, and what follows it. -/
def exponentSign (bs : List UInt8) : Bool × List UInt8 :=
  match bs with
  | 43 :: rest => (false, rest)
  | 45 :: rest => (true, rest)
  | _ => (false, bs)

/-- The exponent, if the letter for it is there. -/
def exponent? (bs : List UInt8) : Option (Option (Bool × List Nat) × List UInt8) :=
  match bs with
  | [] => some (none, [])
  | b :: rest =>
    if b = 101 ∨ b = 69 then
      let (sign, rest) := exponentSign rest
      (fun r => (some (sign, r.1), r.2)) <$> digits? rest
    else some (none, bs)

/-- Reads bytes that are a numeral from the first to the last. -/
def ofBytes? (bs : List UInt8) : Option Numeral := do
  let (negative, bs) := match bs with
    | 45 :: rest => (true, rest)
    | _ => (false, bs)
  let (whole, bs) ← whole? bs
  let (fraction, bs) ← fraction? bs
  let (exponent, bs) ← exponent? bs
  if bs.isEmpty then some ⟨negative, whole, fraction, exponent⟩ else none

/-- The integer that a numeral spells without fraction and exponent. A zero with a sign is none. -/
def integer? (n : Numeral) : Option Int :=
  if n.fraction.isNone && n.exponent.isNone then
    let m := value n.whole
    if n.negative then if m = 0 then none else some (-(m : Int)) else some m
  else none

/-- The natural number that a numeral spells, if it is below the bound. -/
def natBelow? (bound : Nat) (n : Numeral) : Option Nat :=
  match n.integer? with
  | some (.ofNat m) => if m < bound then some m else none
  | _ => none

end Numeral

end Quorate.Json
