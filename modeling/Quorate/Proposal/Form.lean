/-
Proposals in documents. A proposal that is taken in has to be valid at that time, and so has one
that is given out.
-/
import Quorate.Chain.Form
import Quorate.Error
import Quorate.Proposal.Basic

namespace Quorate

open Json

namespace Proposal

def names : List String :=
  ["version", "validUntil", "signatures", "overridePreviousRoot", "chainMetadata", "description",
    "transactions"]

instance : Form Proposal where
  read limit d := do
    let fields ← Fields.ofDoc? names limit d
    some {
      version := ← fields.required "version" Form.read
      validUntil := ← fields.required "validUntil" Form.read
      signatures := ← fields.optional "signatures" [] Form.read
      overridesRoot := ← fields.optional "overridePreviousRoot" false Form.read
      chains := ← fields.required "chainMetadata" (byChain Form.read)
      description := ← fields.required "description" Form.read
      operations := ← fields.required "transactions" Form.read }
  write p := .object [
    ("version", Form.write p.version),
    ("validUntil", Form.write p.validUntil),
    ("signatures", Form.write p.signatures),
    ("overridePreviousRoot", Form.write p.overridesRoot),
    ("chainMetadata", .object (p.chains.entries.map fun e => (toString e.1, Form.write e.2))),
    ("description", Form.write p.description),
    ("transactions", Form.write p.operations)]

def ofBytes (now : Int) (bs : List UInt8) : Except Error Proposal :=
  match Reader.ofBytes? (Form.read : Reader Proposal) bs with
  | some p => (p.validated now).mapError .proposal
  | none => .error .malformed

def ofText (now : Int) (s : String) : Except Error Proposal := ofBytes now (Text.bytes s)

def toDocument (p : Proposal) (now : Int) : Except Error String :=
  toPretty <$> (p.validated now).mapError .proposal

end Proposal

end Quorate
