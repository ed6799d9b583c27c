/-
Signers: whatever turns a digest into a signature in wire form. A private key is one.
-/
import Quorate.Signature

namespace Quorate

/-- A signer answers a digest with the bytes of a signature. -/
structure Signer where
  sign : Digest → Except SignatureError (List UInt8)

/-- The signature of a signer over a digest, read from its bytes. -/
def Signer.signature (signer : Signer) (payload : Digest) : Except SignatureError Signature := do
  Signature.ofBytes (← signer.sign payload)

/-- A private key: a scalar that has a public key, kept with it. Zero has none. -/
structure PrivateKey where
  secret : Curve.Scalar
  publicKey : Curve.Point
  publicKey_eq : Curve.publicKey? secret = some publicKey

namespace PrivateKey

/-- What is said of bytes that hold no private key. -/
def malformed : SignatureError := .signing "malformed or out-of-range secret key"

/-- The key of a scalar. -/
def ofScalar (secret : Curve.Scalar) : Except SignatureError PrivateKey :=
  match h : Curve.publicKey? secret with
  | some key => .ok ⟨secret, key, h⟩
  | none => .error malformed

/-- Reads a key from 32 bytes, which have to hold a positive number below the group order. -/
def ofBytes (bs : List UInt8) : Except SignatureError PrivateKey :=
  if bs.length = 32 then
    match Curve.scalar? (BigEndian.decode bs) with
    | some secret => ofScalar secret
    | none => .error malformed
  else .error malformed

/-- Reads a key from hexadecimal, with or without `0x`. -/
def ofHex (s : String) : Except SignatureError PrivateKey :=
  match Hex.decode (Text.utf8 (Text.drop0x s.toList)) with
  | .ok bs => ofBytes bs
  | .error fault => .error (.signing fault.message)

def address (key : PrivateKey) : Address := .ofPublicKey key.publicKey

/-- The wire form of the key's signature, its id in the raised form. -/
def sign (key : PrivateKey) (payload : Digest) : Except SignatureError (List UInt8) :=
  match Curve.sign? key.secret payload.toNat with
  | some sig =>
    .ok (BigEndian.encode 32 sig.r.val ++ BigEndian.encode 32 sig.s.val ++
      [Signature.raisedId sig.id])
  | none => .error (.signing "no usable nonce")

def signer (key : PrivateKey) : Signer := ⟨key.sign⟩

/-- A mark in place of the key, which is never shown. -/
def describe (_ : PrivateKey) : String := "PrivateKeySigner \x7b .. \x7d"

end PrivateKey

end Quorate
