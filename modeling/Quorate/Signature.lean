/-
Signatures as they travel: two digests and a byte `v`, 65 bytes in all. The byte names the recovery
id, raw or raised by 27. In documents digests and addresses are texts in their written form.
-/
import Quorate.Address
import Quorate.Curve.Ecdsa
import Quorate.Json.Form

namespace Quorate

/-- Why a signature cannot be read, made or traced to its signer. -/
inductive SignatureError where
  | length (found : Nat)
  | recoveryId (v : UInt8)
  | unrecoverable (reason : String)
  | signing (reason : String)
  deriving DecidableEq, Repr

def SignatureError.message : SignatureError → String
  | .length found => s!"invalid signature length: {found}"
  | .recoveryId v => s!"invalid recovery id: {v}"
  | .unrecoverable reason => s!"failed to recover public key: {reason}"
  | .signing reason => s!"signing failed: {reason}"

/-- A signature over a digest. -/
structure Signature where
  r : Digest
  s : Digest
  v : UInt8
  deriving DecidableEq

namespace Signature

/-- The number of bytes of the wire form. -/
def size : Nat := 65

/-- The wire form: `r`, `s`, `v`. -/
def toBytes (sig : Signature) : List UInt8 := sig.r.bytes ++ sig.s.bytes ++ [sig.v]

def ofBytes (bs : List UInt8) : Except SignatureError Signature :=
  if h : bs.length = size then
    .ok {
      r := ⟨bs.take 32, by simp [h, size]⟩
      s := ⟨(bs.drop 32).take 32, by simp [h, size]⟩
      v := bs.get ⟨64, by simp [h, size]⟩ }
  else .error (.length bs.length)

/-- The recovery id that `v` names: 0 and 1 stand for themselves, others are lowered by 27. -/
def recoveryId (v : UInt8) : Except SignatureError (Fin 4) :=
  let raw := if v ≤ 1 then some v.toNat else if 27 ≤ v then some (v.toNat - 27) else none
  match raw with
  | some id => if h : id < 4 then .ok ⟨id, h⟩ else .error (.recoveryId v)
  | none => .error (.recoveryId v)

/-- The raised form of a recovery id. -/
def raisedId (id : Fin 4) : UInt8 := UInt8.ofNat (id.val + 27)

/-- What is said of any signature from which no key follows. -/
def malformed : SignatureError := .unrecoverable "malformed signature"

/-- The public key that made the signature over a digest. -/
def recoverKey (sig : Signature) (digest : Digest) : Except SignatureError Curve.Point := do
  let id ← recoveryId sig.v
  let found := do
    let r ← Curve.scalar? sig.r.toNat
    let s ← Curve.scalar? sig.s.toNat
    (Curve.Recoverable.mk r s id).recover? digest.toNat
  found.elim (throw malformed) pure

def recover (sig : Signature) (digest : Digest) : Except SignatureError Address :=
  Address.ofPublicKey <$> sig.recoverKey digest

end Signature

/-! ## In documents -/

open Json

instance : Form Digest :=
  ⟨Reader.textBy fun s => (Digest.parse s).toOption, fun d => .string d.toHex⟩

instance : Form Address :=
  ⟨Reader.textBy fun s => (Address.parse s).toOption, fun a => .string a.toChecksum⟩

instance : Form Signature where
  read limit d := do
    let fields ← Fields.ofDoc? ["r", "s", "v"] limit d
    some {
      r := ← fields.required "r" Form.read
      s := ← fields.required "s" Form.read
      v := ← fields.required "v" Form.read }
  write sig := .object [("r", Form.write sig.r), ("s", Form.write sig.s), ("v", Form.write sig.v)]

end Quorate
