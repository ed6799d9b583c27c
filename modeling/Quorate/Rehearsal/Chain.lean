/-
Chains in memory, for rehearsals. Each holds a policy, a count of operations and a root, can be told
to fail, and encodes and decodes for itself.
-/
import Quorate.Chain.Collaborator
import Quorate.Hash.Keccak

namespace Quorate.Rehearsal

/-- When a chain fails. Texts are what it says then, or the targets of the operations that fail. -/
structure Trouble where
  metadata : Option String
  operationTo : Option String
  inspect : Option String
  execute : Option String
  simulationTo : Option String
  decodeTo : Option String
  deriving Inhabited

/-- A chain in memory. A fixed leaf stands in for whatever it would encode. -/
structure Chain where
  selector : Selector
  policy : Policy
  count : UInt64
  rootInfo : RootInfo
  fixedLeaf : Option Digest
  trouble : Trouble

/-- A chain in its first state. -/
def Chain.fresh (selector : Selector) : Chain :=
  ⟨selector, default, 0, default, none, default⟩

/-- Eight bytes of a number. -/
def wide (n : UInt64) : List UInt8 := BigEndian.encode 8 n.toNat

/-! ## Leaves -/

namespace Chain

def metadataLeaf (c : Chain) (m : Metadata) : Except Complaint Digest :=
  match c.trouble.metadata, c.fixedLeaf with
  | some text, _ => .error ⟨text⟩
  | none, some leaf => .ok leaf
  | none, none =>
    .ok (keccak256 (Text.bytes "metadata" ++ wide c.selector.id ++ wide m.startingCount ++
      Text.bytes m.contract))

def operationLeaf (c : Chain) (nonce : UInt64) (m : Metadata) (op : Operation) :
    Except Complaint Digest :=
  if op.chain ≠ c.selector then
    .error ⟨s!"operation for chain {op.chain} sent to chain {c.selector}"⟩
  else if c.trouble.operationTo = some op.call.target then
    .error ⟨"cannot encode: " ++ op.call.target⟩
  else
    match c.fixedLeaf with
    | some leaf => .ok leaf
    | none =>
      .ok (keccak256 (Text.bytes "operation" ++ wide c.selector.id ++ wide nonce ++
        Text.bytes m.contract ++ Text.bytes op.call.target ++ op.call.data))

def encoder (c : Chain) : Encoder := ⟨c.metadataLeaf, c.operationLeaf⟩

/-- An operation in readable form: its first tag for a method, its target and the size of its data.
-/
def decode (c : Chain) (op : Operation) : Except Complaint DecodedCall :=
  if c.trouble.decodeTo = some op.call.target then .error ⟨"cannot decode: " ++ op.call.target⟩
  else
    .ok ⟨op.call.labels.tags.headD "unknown", ["to", "len"],
      [.string op.call.target, .number (.int op.call.data.length)]⟩

def decoder (c : Chain) : Decoder := ⟨c.decode⟩

end Chain

end Quorate.Rehearsal
