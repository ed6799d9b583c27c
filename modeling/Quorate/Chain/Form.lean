/-
What chains and operations look like in documents. An operation is a flat record: the fields of its
call and of the call's labels stand beside its own.
-/
import Quorate.Base64
import Quorate.Chain.Operation
import Quorate.Signature

namespace Quorate

open Json

instance : Form Selector :=
  ⟨fun limit d => Selector.mk <$> Reader.count limit d, fun s => Form.write s.id⟩

/-- Reads a selector that stands as a key. It has to be spelled without escapes. -/
def Selector.ofKey? (q : Quoted) : Option Selector := do
  let n ← Numeral.ofBytes? q.raw
  (fun m => ⟨UInt64.ofNat m⟩) <$> n.natBelow? UInt64.size

/-- Reads an object whose keys are selectors. Of members with one key the last counts. -/
def byChain {α : Type} (read : Reader α) : Reader (Table Selector α)
  | limit + 1, .object members =>
    Table.ofList <$> members.mapM fun m => do some (← Selector.ofKey? m.1, ← read limit m.2)
  | _, _ => none

instance : Form Metadata where
  read limit d := do
    let fields ← Fields.ofDoc? ["startingOpCount", "mcmAddress", "additionalFields"] limit d
    some {
      startingCount := ← fields.required "startingOpCount" Form.read
      contract := ← fields.required "mcmAddress" Form.read
      extras := ← fields.optional "additionalFields" none (Reader.nullable Form.read) }
  write m := .object
    ([("startingOpCount", Form.write m.startingCount), ("mcmAddress", Form.write m.contract)] ++
      present "additionalFields" m.extras)

/-! ## Labels and calls -/

def Labels.names : List String := ["contractType", "tags"]

/-- Labels from fields. Each of the fields may be left out. -/
def Labels.ofFields? (fields : Fields) : Option Labels := do
  some {
    contractType := ← fields.optional "contractType" "" Form.read
    tags := ← fields.optional "tags" [] Form.read }

/-- The members that labels are written as. -/
def Labels.members (l : Labels) : List (String × Value) :=
  [("contractType", Form.write l.contractType), ("tags", Form.write l.tags)]

instance : Form Labels where
  read limit d := do Labels.ofFields? (← Fields.ofDoc? Labels.names limit d)
  write l := .object l.members

/-- Reads bytes from a text in base64; null stands for no bytes. -/
def payload : Reader (List UInt8) := fun limit d => do
  match ← Reader.nullable Reader.text limit d with
  | none => some []
  | some s => Base64.decode? s.toList

def Call.names : List String := ["to", "data", "additionalFields"] ++ Labels.names

def Call.ofFields? (fields : Fields) : Option Call := do
  some {
    target := ← fields.required "to" Form.read
    data := ← fields.optional "data" [] payload
    extras := ← fields.optional "additionalFields" .null Form.read
    labels := ← Labels.ofFields? fields }

/-- The members that a call is written as. -/
def Call.members (c : Call) : List (String × Value) :=
  [("to", Form.write c.target), ("data", .string (String.ofList (Base64.encode c.data))),
    ("additionalFields", c.extras)] ++ c.labels.members

instance : Form Call where
  read limit d := do Call.ofFields? (← Fields.ofFlat? Call.names limit d)
  write c := .object c.members

instance : Form Operation where
  read limit d := do
    let fields ← Fields.ofFlat? ("chainSelector" :: Call.names) limit d
    some {
      chain := ← fields.required "chainSelector" Form.read
      call := ← Call.ofFields? fields }
  write op := .object (("chainSelector", Form.write op.chain) :: op.call.members)

/-! ## What chains answer -/

instance : Form RootInfo where
  read limit d := do
    let fields ← Fields.ofDoc? ["root", "validUntil"] limit d
    some {
      root := ← fields.required "root" Form.read
      validUntil := ← fields.required "validUntil" Form.read }
  write r := .object [("root", Form.write r.root), ("validUntil", Form.write r.validUntil)]

instance : Form Receipt where
  read limit d := do
    let fields ← Fields.ofDoc? ["hash", "chainFamily", "raw"] limit d
    some {
      transaction := ← fields.required "hash" Form.read
      family := ← fields.required "chainFamily" Form.read
      raw := ← fields.optional "raw" none (Reader.nullable Form.read) }
  write r := .object
    ([("hash", Form.write r.transaction), ("chainFamily", Form.write r.family)] ++
      present "raw" r.raw)

instance : Form DecodedCall where
  read limit d := do
    let fields ← Fields.ofDoc? ["methodName", "keys", "args"] limit d
    some {
      method := ← fields.required "methodName" Form.read
      names := ← fields.required "keys" Form.read
      arguments := ← fields.required "args" Form.read }
  write c := .object [("methodName", Form.write c.method), ("keys", Form.write c.names),
    ("args", Form.write c.arguments)]

end Quorate
