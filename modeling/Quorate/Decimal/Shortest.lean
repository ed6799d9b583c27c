/-
The shortest decimal that is read back as a given value: of all decimals with the fewest digits, the
one nearest to the value.
-/
import Quorate.Decimal.Binary64

namespace Quorate.Decimal

/-- The least k with x < 10^k, searched upwards from a start. -/
def scaleFrom (x : Binary) : (steps : Nat) → Int → Int
  | 0, k => k
  | steps + 1, k => if compareScaled 1 k x.m x.q == .gt then k else scaleFrom x steps (k + 1)

/-- The least k with x < 10^k. The start is below it because 2^10 exceeds 10^3. -/
def scale (x : Binary) : Int :=
  let log2 : Int := x.m.log2 + x.q
  scaleFrom x 800 ((log2 * 3 - 40) / 10 - if log2 < 0 then (-log2 + 99) / 100 else 0)

/-- The whole number of steps of 10^e that fit into the value. -/
def Binary.floorAt (x : Binary) (e : Int) : Nat :=
  x.m * twos x.q.toNat * tens (-e).toNat / (twos (-x.q).toNat * tens e.toNat)

/-- The candidate on the grid of step 10^e: of the two neighbours of the value there, the one that
reads back, or the nearer if both do, or the even one if they are equally near. -/
def Binary.candidate? (x : Binary) (e : Int) : Option Dec :=
  let low := x.floorAt e
  let lower : Dec := ⟨low, e⟩
  let upper : Dec := ⟨low + 1, e⟩
  match x.readsBack lower, x.readsBack upper with
  | false, false => none
  | true, false => some lower
  | false, true => some upper
  | true, true =>
    match compareScaled (2 * low + 1) e (2 * x.m) x.q with
    | .gt => some lower
    | .lt => some upper
    | .eq => some (if low % 2 = 0 then lower else upper)

/-- Moves zeros at the end of the digits into the exponent. -/
def Dec.strip : (steps : Nat) → Dec → Dec
  | 0, d => d
  | steps + 1, d => if d.digits % 10 = 0 then strip steps ⟨d.digits / 10, d.exponent + 1⟩ else d

/-- The shortest decimal of a value other than zero: grids of one, two and more digits are tried,
and seventeen digits always read back. -/
def Binary.shortest (x : Binary) : Dec :=
  let k := scale x
  match (List.range 17).findSome? fun i : Nat => x.candidate? (k - ((i : Int) + 1)) with
  | some d => d.strip 17
  | none => ⟨x.floorAt (k - 17), k - 17⟩

end Quorate.Decimal
