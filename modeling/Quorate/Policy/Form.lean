/-
Policies in documents. A policy is written with all of its fields; where members or groups are left
out, there are none.
-/
import Quorate.Policy
import Quorate.Signature

namespace Quorate.Policy

open Json

mutual

def toValue : Policy → Value
  | node quorum members groups =>
    .object [("quorum", Form.write quorum), ("signers", Form.write members),
      ("groupSigners", .array (toValues groups))]

def toValues : List Policy → List Value
  | [] => []
  | g :: gs => toValue g :: toValues gs

end

/-- Reads a policy in which no more than `depth` policies are nested. -/
def reader : (depth : Nat) → Reader Policy
  | 0 => fun _ _ => none
  | depth + 1 => fun limit d => do
    let fields ← Fields.ofDoc? ["quorum", "signers", "groupSigners"] limit d
    let quorum ← fields.required "quorum" Form.read
    let members ← fields.optional "signers" [] Form.read
    let groups ← fields.optional "groupSigners" [] (Reader.list (reader depth))
    some (node quorum members groups)

/-- Each policy is a container, so the limit of containers bounds the depth too. -/
instance : Form Policy := ⟨fun limit d => reader limit limit d, toValue⟩

end Quorate.Policy
