/-
Deterministic nonces. The secret and the message seed a chain of keyed digests, and the nonce is its
first output that is a usable multiplier, so signing the same message twice gives the same
signature.
-/
import Quorate.Curve.Point
import Quorate.Hash.Sha256

namespace Quorate.Curve.Nonce

/-- The chain: its key and its current value, 32 bytes each. -/
structure Chain where
  key : List UInt8
  value : List UInt8

namespace Chain

/-- Changes the key, with a mark and extra bytes worked in, and then the value. -/
def rekey (c : Chain) (mark : UInt8) (extra : List UInt8) : Chain :=
  let key := Sha256.hmac c.key (c.value ++ mark :: extra)
  ⟨key, Sha256.hmac key c.value⟩

/-- The chain seeded by a secret and a message. -/
def seed (secret message : List UInt8) : Chain :=
  let start : Chain := ⟨List.replicate 32 0, List.replicate 32 1⟩
  (start.rekey 0 (secret ++ message)).rekey 1 (secret ++ message)

/-- The chain after its next output, which is its value. -/
def next (c : Chain) : Chain := { c with value := Sha256.hmac c.key c.value }

end Chain

/-- The first result that `use` gives for an output of the chain, within a number of attempts.
An output counts if it is a positive number below the order of the generator. -/
def first? {α : Type} (use : Scalar → Option α) : (attempts : Nat) → Chain → Option α
  | 0, _ => none
  | attempts + 1, c =>
    let out := c.next
    let n := BigEndian.decode out.value
    let found := if h : n < groupOrder then if n = 0 then none else use ⟨n, h⟩ else none
    match found with
    | some a => some a
    | none => first? use attempts (out.rekey 0 [])

end Quorate.Curve.Nonce
