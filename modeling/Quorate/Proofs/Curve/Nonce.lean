/-
Nonces: signing tries the outputs of a chain, one after the other, until one of them gives a
signature. Each message has a chain of its own, so whether it can be signed is a fact about the first
outputs of this chain. The very first of them is found on numbers.
-/
import Quorate.Curve.Ecdsa
import Quorate.Proofs.Hash.Sha256
import Mathlib.Logic.Function.Iterate

namespace Quorate.Curve

/-! ## The search -/

namespace Nonce

variable {α : Type} {use : Scalar → Option α}

/-- The chain from which the nonces for a message are taken. -/
def Chain.of (secret : Scalar) (message : Nat) : Chain :=
  seed (BigEndian.encode 32 secret.val) (BigEndian.encode 32 (Fin.ofNat groupOrder message).val)

/-- The chain after an output that was of no use. -/
def Chain.retry (c : Chain) : Chain := c.next.rekey 0 []

/-- The nonce that the next output of the chain holds, if that is a usable multiplier. -/
def Chain.nonce? (c : Chain) : Option Scalar := scalar? (BigEndian.decode c.next.value)

/-- An attempt takes what the next nonce leads to, and leaves the rest to the attempts after it. -/
theorem first?_succ (use : Scalar → Option α) (attempts : Nat) (c : Chain) :
    first? use (attempts + 1) c = (c.nonce?.bind use).or (first? use attempts c.retry) := by
  have hfound : c.nonce?.bind use = if h : BigEndian.decode c.next.value < groupOrder then
      if BigEndian.decode c.next.value = 0 then none else use ⟨_, h⟩ else none := by
    unfold Chain.nonce? scalar?
    split
    · split <;> rfl
    · rfl
  rw [hfound, first?]
  split
  · rename_i heq
    rw [heq, Option.some_or]
  · rename_i heq
    rw [heq, Option.none_or]
    rfl

/-- The search finds what the first nonce that is of use leads to. -/
theorem first?_eq_some {a : α} : ∀ {attempts : Nat} {c : Chain},
    first? use attempts c = some a ↔ ∃ i < attempts, (Chain.retry^[i] c).nonce?.bind use = some a ∧
      ∀ j < i, (Chain.retry^[j] c).nonce?.bind use = none
  | 0, c => by simp [first?]
  | attempts + 1, c => by
    rw [first?_succ, Option.or_eq_some_iff, first?_eq_some]
    constructor
    · rintro (hfound | ⟨hnone, i, hi, hfound, hbefore⟩)
      · exact ⟨0, Nat.succ_pos _, hfound, nofun⟩
      · refine ⟨i + 1, Nat.succ_lt_succ hi, hfound, fun j hj => ?_⟩
        cases j with
        | zero => exact hnone
        | succ j => exact hbefore j (Nat.lt_of_succ_lt_succ hj)
    · rintro ⟨_ | i, hi, hfound, hbefore⟩
      · exact .inl hfound
      · exact .inr ⟨hbefore 0 (Nat.succ_pos _), i, Nat.lt_of_succ_lt_succ hi, hfound,
          fun j hj => hbefore (j + 1) (Nat.succ_lt_succ hj)⟩

end Nonce

/-- A message is signed with the first nonce that gives a signature, out of those that are tried. -/
theorem sign?_eq_some {secret : Scalar} {message : Nat} {sig : Recoverable} :
    sign? secret message = some sig ↔ ∃ i < attempts,
      (Nonce.Chain.retry^[i] (.of secret message)).nonce?.bind
        (signWith secret (Fin.ofNat groupOrder message)) = some sig ∧
      ∀ j < i, (Nonce.Chain.retry^[j] (.of secret message)).nonce?.bind
        (signWith secret (Fin.ofNat groupOrder message)) = none :=
  Nonce.first?_eq_some

/-! ## The first output -/

namespace Nonce.Chain

open Sha256

/-- The first output of the chain that a secret and a message seed takes five keyed digests. -/
def firstOn (secret message : List UInt8) : List UInt8 :=
  let key₁ := hmacOn (List.replicate 32 0) (List.replicate 32 1 ++ 0 :: (secret ++ message))
  let value₁ := hmacOn key₁ (List.replicate 32 1)
  let key₂ := hmacOn key₁ (value₁ ++ 1 :: (secret ++ message))
  let value₂ := hmacOn key₂ value₁
  hmacOn key₂ value₂

theorem nonce?_of (secret : Scalar) (message : Nat) : (of secret message).nonce? =
    scalar? (BigEndian.decode (firstOn (BigEndian.encode 32 secret.val)
      (BigEndian.encode 32 (Fin.ofNat groupOrder message).val))) := by
  unfold nonce? of seed rekey next firstOn
  simp only [hmac_eq_hmacOn]

end Nonce.Chain

end Quorate.Curve
