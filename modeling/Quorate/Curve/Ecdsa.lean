/-
Signatures over the curve that carry a recovery id, so that the public key follows from signature
and message. Signing takes its nonce from the secret and the message and keeps `s` in the lower
half.
-/
import Quorate.Curve.Nonce

namespace Quorate.Curve

/-- A signature: the two scalars, and which of up to four points the nonce led to. Bit 0 of the id
is the parity of the ordinate, bit 1 says that the abscissa was at least the group order. -/
structure Recoverable where
  r : Scalar
  s : Scalar
  id : Fin 4
  deriving DecidableEq

/-- Reads a scalar that has to be below the group order and not zero. -/
def scalar? (n : Nat) : Option Scalar :=
  if h : n < groupOrder then if n = 0 then none else some ⟨n, h⟩ else none

def publicKey? (secret : Scalar) : Option Point := (times secret generator).toPoint?

/-- The key whose signature over a message this is. -/
def Recoverable.recover? (sig : Recoverable) (message : Nat) : Option Point := do
  let abscissa := sig.r.val + if sig.id.val < 2 then 0 else groupOrder
  let x ← if h : abscissa < fieldOrder then some (⟨abscissa, h⟩ : Field) else none
  let point ← lift? x (sig.id.val % 2 == 1)
  let inv := Scalar.inverse sig.r
  let m := Fin.ofNat groupOrder message
  let sum := (times (sig.s * inv) point).add (times (-(m * inv)) generator)
  sum.toPoint?

/-- The signature that one nonce gives. It is of no use if a scalar is zero. -/
def signWith (secret message nonce : Scalar) : Option Recoverable := do
  let point ← (times nonce generator).toPoint?
  let r := Fin.ofNat groupOrder point.x.val
  let s := Scalar.inverse nonce * (message + r * secret)
  if r = 0 ∨ s = 0 then none
  else
    let high := decide (groupOrder / 2 < s.val)
    let odd := (point.y.val % 2 == 1) != high
    let id : Fin 4 := match decide (groupOrder ≤ point.x.val), odd with
      | false, false => 0
      | false, true => 1
      | true, false => 2
      | true, true => 3
    some ⟨r, if high then -s else s, id⟩

/-- How many nonces are tried before signing gives up. One in 2^128 fails. -/
def attempts : Nat := 64

/-- The signature of a message. Messages count modulo the group order, for the nonce too. -/
def sign? (secret : Scalar) (message : Nat) : Option Recoverable :=
  let m := Fin.ofNat groupOrder message
  Nonce.first? (signWith secret m) attempts
    (Nonce.Chain.seed (BigEndian.encode 32 secret.val) (BigEndian.encode 32 m.val))

end Quorate.Curve
