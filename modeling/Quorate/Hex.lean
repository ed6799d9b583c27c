/-
Hexadecimal. Bytes are written with two lower-case digits each; digits of either case are read.
Reading works on the bytes of a text, so that a fault is located by its byte position.
-/
import Quorate.Text

namespace Quorate.Hex

/-- Why a text is not hexadecimal. -/
inductive Fault where
  | oddLength
  | badDigit (byte : UInt8) (index : Nat)
  deriving DecidableEq, Repr

/-- The digit of a number below sixteen. -/
def digit (n : Nat) : Char :=
  if n < 10 then Char.ofNat (48 + n) else Char.ofNat (87 + n)

/-- The two digits of a byte. -/
def pair (b : UInt8) : List Char := [digit (b.toNat / 16), digit (b.toNat % 16)]

/-- The digits of bytes, in lower case. -/
def digits (bs : List UInt8) : List Char := bs.flatMap pair

/-- The written form of bytes. -/
def encode (bs : List UInt8) : String := String.ofList (digits bs)

/-- The value of a digit, given as the ASCII code of the character. -/
def value? (b : UInt8) : Option Nat :=
  if 48 ≤ b ∧ b ≤ 57 then some (b.toNat - 48)
  else if 97 ≤ b ∧ b ≤ 102 then some (b.toNat - 87)
  else if 65 ≤ b ∧ b ≤ 70 then some (b.toNat - 55)
  else none

def isDigit (c : Char) : Bool :=
  c.isDigit || ('a' ≤ c && c ≤ 'f') || ('A' ≤ c && c ≤ 'F')

/-- Reads digits two by two; `index` is the position of the first of them in the whole text. -/
def decodePairs (index : Nat) : List UInt8 → Except Fault (List UInt8)
  | [] => .ok []
  | [_] => .error .oddLength
  | hi :: lo :: rest =>
    match value? hi, value? lo with
    | none, _ => .error (.badDigit hi index)
    | some _, none => .error (.badDigit lo (index + 1))
    | some h, some l => (UInt8.ofNat (h * 16 + l) :: ·) <$> decodePairs (index + 2) rest

/-- Reads the bytes of a hexadecimal text. An odd length is found before any bad digit. -/
def decode (bs : List UInt8) : Except Fault (List UInt8) :=
  if bs.length % 2 = 1 then .error .oddLength else decodePairs 0 bs

/-- A byte that stands for no digit, shown as the character of that code. -/
def shown (b : UInt8) : String := Text.quoted '\'' [Char.ofNat b.toNat]

def Fault.message : Fault → String
  | .oddLength => "Odd number of digits"
  | .badDigit byte index => s!"Invalid character {shown byte} at position {index}"

end Quorate.Hex
