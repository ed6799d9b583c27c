/-
How a binary64 value is written: its shortest decimal, positional while the leading digit stands
within sixteen places before the point or five behind it, with an exponent otherwise. A whole value
keeps `.0`.
-/
import Quorate.Decimal.Shortest

namespace Quorate.Decimal

def digitsOf (n : Nat) : List Char := Nat.toDigits 10 n

/-- Where the two notations meet: the decimal exponents of the leading digit that are written
positionally. -/
structure Layout where
  lowest : Int
  highest : Int

/-- The layout of numbers in documents. -/
def Layout.document : Layout := ⟨-5, 15⟩

/-- Digits with the point behind the first `places` of them, `0.` or zeros filling the gap. -/
def positional (digits : List Char) (places : Int) : List Char :=
  if places ≤ 0 then '0' :: '.' :: (List.replicate (-places).toNat '0' ++ digits)
  else
    let before := digits.take places.toNat
    let after := digits.drop places.toNat
    before ++ List.replicate (places.toNat - before.length) '0' ++
      '.' :: (if after.isEmpty then ['0'] else after)

/-- Digits with the point behind the first of them, and an exponent with its sign. -/
def scientific (digits : List Char) (exponent : Int) : List Char :=
  let mantissa := match digits with
    | d :: e :: rest => d :: '.' :: e :: rest
    | ds => ds
  mantissa ++ 'e' :: (if exponent < 0 then '-' else '+') :: digitsOf exponent.natAbs

/-- The written form of a decimal that is not zero. -/
def Layout.write (layout : Layout) (d : Dec) : List Char :=
  let digits := digitsOf d.digits
  let leading := d.exponent + digits.length - 1
  if layout.lowest ≤ leading ∧ leading ≤ layout.highest then positional digits (leading + 1)
  else scientific digits leading

/-- The written form of a finite value. A zero keeps its sign. -/
def writeFloat (x : Float) : List Char :=
  let bits := x.toBits
  let value := Binary.ofBits (bits &&& 0x7FFFFFFFFFFFFFFF)
  let body := if value.m = 0 then ['0', '.', '0'] else Layout.document.write value.shortest
  if bits >>> 63 = 1 then '-' :: body else body

end Quorate.Decimal
