/-
Submissions: bringing the root and the operations to the chains. A submission is put together first,
and every fault on the way shows before anything is sent; then it is sent once.
-/
import Quorate.Ceremony.Basic

namespace Quorate.Ceremony

variable {σ : Type}

def executor (c : Ceremony σ) (chain : Selector) : Except Error (Executor σ) :=
  c.executors.find chain (.noExecutor chain)

def nonceAt (c : Ceremony σ) (index : Nat) : Except Error UInt64 :=
  match c.nonces[index]? with
  | some nonce => .ok nonce
  | none => .error (.indexOutOfRange index c.nonces.length)

def operationAt (c : Ceremony σ) (index : Nat) : Except Error Operation :=
  match c.proposal.operations[index]? with
  | some op => .ok op
  | none => .error (.indexOutOfRange index c.proposal.operations.length)

def proofOf (c : Ceremony σ) (leaf : Digest) : Except Error (List Digest) :=
  (c.tree.proof leaf).mapError .merkle

/-! ## The root -/

/-- A root that is ready for a chain: who submits it, and what. -/
structure ReadyRoot (σ : Type) where
  executor : Executor σ
  metadata : Metadata
  submission : RootSubmission

/-- Puts the root together for a chain: executor, metadata, encoder, leaf, proof, signatures. -/
def prepareRoot (c : Ceremony σ) (chain : Selector) : Except Error (ReadyRoot σ) := do
  let executor ← c.executor chain
  let metadata ← Commitment.metadata c.proposal chain
  let encoder ← Commitment.encoder c.encoders chain
  let leaf ← (encoder.metadataLeaf metadata).mapError .collaborator
  let proof ← c.proofOf leaf
  let signatures ← c.sortedSignatures
  .ok ⟨executor, metadata, ⟨proof, c.root, c.proposal.validUntil, signatures⟩⟩

def setRoot (c : Ceremony σ) (chain : Selector) : Step σ Receipt := do
  let ready ← c.prepareRoot chain
  asking (ready.executor.setRoot ready.metadata ready.submission)

/-! ## Operations -/

/-- An operation that is ready: who submits it, and what. -/
structure ReadyOperation (σ : Type) where
  executor : Executor σ
  metadata : Metadata
  nonce : UInt64
  proof : List Digest
  operation : Operation

/-- Puts the operation at an index together: executor, metadata, nonce, encoder, leaf, proof. -/
def prepareOperation (c : Ceremony σ) (index : Nat) : Except Error (ReadyOperation σ) := do
  let op ← c.operationAt index
  let executor ← c.executor op.chain
  let metadata ← Commitment.metadata c.proposal op.chain
  let nonce ← c.nonceAt index
  let encoder ← Commitment.encoder c.encoders op.chain
  let leaf ← (encoder.operationLeaf nonce metadata op).mapError .collaborator
  let proof ← c.proofOf leaf
  .ok ⟨executor, metadata, nonce, proof, op⟩

def execute (c : Ceremony σ) (index : Nat) : Step σ Receipt := do
  let ready ← c.prepareOperation index
  asking (ready.executor.execute ready.metadata ready.nonce ready.proof ready.operation)

end Quorate.Ceremony
