/-
What is signed, and what it is signed for: a root and an expiry. Both are hashed in two stages, each
on a message of fixed length that tells its parts apart, so what is signed can be the same for two
roots or expiries only where one of the stages has two messages of one digest. That this does not
happen is not assumed; the colliding messages are the alternative.
-/
import Quorate.Commitment
import Quorate.Proofs.BigEndian

namespace Quorate.Commitment

/-- Two different messages of the same length have one digest. -/
structure MessagesCollide (length : Nat) (a b : List UInt8) : Prop where
  left : a.length = length
  right : b.length = length
  differ : a ≠ b
  digest : keccak256 a = keccak256 b

/-- Messages of one length and one digest are one message, or they collide. -/
theorem eq_or_messagesCollide {length : Nat} {a b : List UInt8} (ha : a.length = length)
    (hb : b.length = length) (h : keccak256 a = keccak256 b) :
    a = b ∨ MessagesCollide length a b := by
  by_cases hab : a = b
  · exact .inl hab
  · exact .inr ⟨ha, hb, hab, h⟩

/-! ## The inner message -/

/-- A root and an expiry make 64 bytes. -/
theorem length_envelope (root : Digest) (validUntil : UInt32) :
    (envelope root validUntil).length = 64 := by
  unfold envelope
  rw [List.length_append, root.length_bytes, Digest.length_bytes]

/-- The bytes tell both the root and the expiry. -/
theorem envelope_injective {root root' : Digest} {validUntil validUntil' : UInt32}
    (h : envelope root validUntil = envelope root' validUntil') :
    root = root' ∧ validUntil = validUntil' := by
  have hlength : root.bytes.length = root'.bytes.length := by
    rw [root.length_bytes, root'.length_bytes]
  obtain ⟨hroot, hword⟩ := List.append_inj h hlength
  refine ⟨Digest.ext hroot, ?_⟩
  have hencode : BigEndian.encode 4 validUntil.toNat = BigEndian.encode 4 validUntil'.toNat := by
    apply Digest.eq_of_padLeft_eq
    · simp
    · simp
    · exact Digest.ext hword
  have hfits : ∀ v : UInt32, v.toNat < 256 ^ 4 := fun v => v.toNat_lt
  exact UInt32.toNat_inj.1 (BigEndian.eq_of_encode_eq (hfits _) (hfits _) hencode)

/-! ## The outer message -/

/-- The bytes that are hashed to sign a digest as a personal message. -/
def personalMessage (d : Digest) : List UInt8 := personalMark ++ d.bytes

theorem personal_eq (d : Digest) : personal d = keccak256 (personalMessage d) := rfl

theorem length_personalMark : personalMark.length = 28 := by decide

/-- The mark and a digest make 60 bytes. -/
theorem length_personalMessage (d : Digest) : (personalMessage d).length = 60 := by
  unfold personalMessage
  rw [List.length_append, length_personalMark, d.length_bytes]

theorem personalMessage_injective {d d' : Digest} (h : personalMessage d = personalMessage d') :
    d = d' := Digest.ext (List.append_cancel_left h)

/-! ## Both stages -/

/-- Two roots with their expiries are signed alike exactly if they are the same, or the messages of
64 bytes that they make collide, or those of 60 bytes that the digests of the former make. -/
theorem signing_binds_root_and_expiry (root root' : Digest) (validUntil validUntil' : UInt32) :
    signingDigest root validUntil = signingDigest root' validUntil' ↔
      (root = root' ∧ validUntil = validUntil') ∨
      MessagesCollide 64 (envelope root validUntil) (envelope root' validUntil') ∨
      MessagesCollide 60 (personalMessage (keccak256 (envelope root validUntil)))
        (personalMessage (keccak256 (envelope root' validUntil'))) := by
  unfold signingDigest
  rw [personal_eq, personal_eq]
  constructor
  · intro h
    rcases eq_or_messagesCollide (length_personalMessage _) (length_personalMessage _) h with
      houter | hcollide
    · have hinner := personalMessage_injective houter
      rcases eq_or_messagesCollide (length_envelope _ _) (length_envelope _ _) hinner with
        hsame | hcollide
      · exact .inl (envelope_injective hsame)
      · exact .inr (.inl hcollide)
    · exact .inr (.inr hcollide)
  · rintro (⟨rfl, rfl⟩ | hcollide | hcollide)
    · rfl
    · rw [hcollide.digest]
    · exact hcollide.digest

end Quorate.Commitment
