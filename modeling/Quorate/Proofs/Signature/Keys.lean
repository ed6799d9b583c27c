/-
What a private key signs, and who is found to have signed it. A signature of the curve travels with
its id raised; read back, it leads to the key that made it. The search for a nonce may give up in
principle; for two keys and one payload it is shown to succeed.
-/
import Quorate.Proofs.BigEndian
import Quorate.Proofs.Curve.Recovery
import Quorate.Proofs.Outcome
import Quorate.Proofs.Sample

namespace Quorate

namespace Signature

/-! ## Recovery ids -/

theorem toNat_raisedId (id : Fin 4) : (raisedId id).toNat = id.val + 27 := by
  revert id
  decide

theorem recoveryId_raisedId (id : Fin 4) : recoveryId (raisedId id) = .ok id := by
  revert id
  decide

/-! ## The wire form -/

theorem length_toBytes (sig : Signature) : sig.toBytes.length = size := by
  simp [toBytes, sig.r.length_bytes, sig.s.length_bytes, size]

theorem ofBytes_toBytes (sig : Signature) : ofBytes sig.toBytes = .ok sig := by
  unfold ofBytes
  rw [dif_pos sig.length_toBytes]
  obtain ⟨⟨r, hr⟩, ⟨s, hs⟩, v⟩ := sig
  simp [toBytes, hr, hs]

/-- A signature of the curve in wire form. -/
def ofRecoverable (sig : Curve.Recoverable) : Signature :=
  ⟨.ofNat sig.r.val, .ofNat sig.s.val, raisedId sig.id⟩

theorem scalar?_ofNat {k : Curve.Scalar} (hk : k ≠ 0) :
    Curve.scalar? (Digest.ofNat k.val).toNat = some k := by
  have hfits : k.val < 256 ^ 32 := k.isLt.trans (by decide)
  have hpos : k.val ≠ 0 := fun h => hk (Fin.ext h)
  unfold Curve.scalar?
  rw [Digest.toNat_ofNat_of_lt hfits, dif_pos k.isLt, if_neg hpos]

theorem recoverKey_ofRecoverable {sig : Curve.Recoverable} (hr : sig.r ≠ 0) (hs : sig.s ≠ 0)
    {digest : Digest} {key : Curve.Point} (h : sig.recover? digest.toNat = some key) :
    (ofRecoverable sig).recoverKey digest = .ok key := by
  unfold recoverKey ofRecoverable
  simp only [recoveryId_raisedId, ok_bind, scalar?_ofNat hr, scalar?_ofNat hs]
  show ((sig.recover? digest.toNat).elim _ _ : Except _ _) = _
  rw [h]
  rfl

end Signature

namespace PrivateKey

variable {key : PrivateKey} {payload : Digest} {sig : Signature}

/-- Every multiplier but zero is a private key. -/
theorem exists_ofScalar {secret : Curve.Scalar} :
    (∃ key, ofScalar secret = .ok key) ↔ secret ≠ 0 := by
  unfold ofScalar
  constructor
  · rintro ⟨key, h⟩
    split at h
    · rename_i found hfound
      exact mt Curve.residue_eq_zero.2 (Curve.publicKey?_eq_some.1 hfound).multiplier_ne_zero
    · cases h
  · intro h
    obtain ⟨publicKey, hkey⟩ := Curve.exists_publicKey? h
    split
    · exact ⟨_, rfl⟩
    · rename_i hnone
      rw [hkey] at hnone
      cases hnone

/-- This is said of the function, for at a key the match of the definition would be computed. -/
theorem sign_eq : @sign = fun key payload => (Curve.sign? key.secret payload.toNat).elim
    (.error (.signing "no usable nonce"))
    fun made => .ok (Signature.ofRecoverable made).toBytes := by
  delta sign
  funext key payload
  generalize Curve.sign? key.secret payload.toNat = found
  cases found <;> rfl

/-- A key signs with the wire form of what the curve makes. -/
theorem sign_of_sign? {made : Curve.Recoverable}
    (h : Curve.sign? key.secret payload.toNat = some made) :
    key.signer.sign payload = .ok (Signature.ofRecoverable made).toBytes := by
  show key.sign payload = _
  rw [sign_eq]
  dsimp only
  rw [h]
  rfl

/-- A key signs unless the curve gives up. -/
theorem signature_eq_ok : key.signer.signature payload = .ok sig ↔
    ∃ made, Curve.sign? key.secret payload.toNat = some made ∧ .ofRecoverable made = sig := by
  have hsign : key.signer.signature payload = key.sign payload >>= Signature.ofBytes := rfl
  rw [hsign, sign_eq]
  dsimp only
  generalize Curve.sign? key.secret payload.toNat = found
  cases found with
  | none => simp [bind, Except.bind]
  | some made => simp [Signature.ofBytes_toBytes]

/-- Whoever recovers a key's signature finds the key's address. -/
theorem recover_signature (h : key.signer.signature payload = .ok sig) :
    sig.recover payload = .ok key.address := by
  obtain ⟨made, hmade, rfl⟩ := signature_eq_ok.1 h
  obtain ⟨hr, hs, hrecover⟩ := Curve.recover?_of_sign? hmade key.publicKey_eq
  unfold Signature.recover
  rw [Signature.recoverKey_ofRecoverable hr hs hrecover]
  rfl

end PrivateKey

/-! ## Two keys that sign

For either key the first nonce gives a signature of the payload. -/

namespace Sample

open Curve

theorem nonce?_firstKey : (Nonce.Chain.of firstKey.secret payload.toNat).nonce? =
    some 0x2358f05892e6ed024318fe2cd428ec0785875d7d30474daf46d58e2fe6529717 := by
  rw [Nonce.Chain.nonce?_of]
  decide +kernel

theorem nonce?_secondKey : (Nonce.Chain.of secondKey.secret payload.toNat).nonce? =
    some 0x68e6832acfba94a93f688b5a1df960b2e91b17d80f10a3471dd4babaa44c4270 := by
  rw [Nonce.Chain.nonce?_of]
  decide +kernel

theorem sign?_firstKey : sign? firstKey.secret payload.toNat =
    some ⟨0x1405118485028883d1b63027f0881c1c9d5e0c386a69c7d915c512efb6b3d0f8,
      0x1f17057fe441a0d8ea6da82daf5fcb6ffda615fae3534315372a7c7c3eb0cd77, 1⟩ := by
  refine sign?_eq_some.2 ⟨0, by decide, ?_, nofun⟩
  rw [Function.iterate_zero_apply, nonce?_firstKey, Option.bind_some]
  decide +kernel

theorem sign?_secondKey : sign? secondKey.secret payload.toNat =
    some ⟨0x53c629c1f5e4910547a16e625844d590fb3a9feb8af3ae0df1893d9b42b97343,
      0x0923e5dbcc89f254c29c45d9cbb6c45549217d4c9b733b368b64f17289d69907, 1⟩ := by
  refine sign?_eq_some.2 ⟨0, by decide, ?_, nofun⟩
  rw [Function.iterate_zero_apply, nonce?_secondKey, Option.bind_some]
  decide +kernel

theorem exists_signature_firstKey : ∃ sig, firstKey.signer.signature payload = .ok sig :=
  ⟨_, PrivateKey.signature_eq_ok.2 ⟨_, sign?_firstKey, rfl⟩⟩

theorem exists_signature_secondKey : ∃ sig, secondKey.signer.signature payload = .ok sig :=
  ⟨_, PrivateKey.signature_eq_ok.2 ⟨_, sign?_secondKey, rfl⟩⟩

theorem compare_address : compare secondKey.address firstKey.address = .lt := by
  decide +kernel

theorem address_ne : firstKey.address ≠ secondKey.address := by
  intro h
  have hless := compare_address
  rw [← h] at hless
  exact absurd (hless.symm.trans Std.ReflCmp.compare_self) (by decide)

end Sample

end Quorate
