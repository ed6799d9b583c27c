/-
Commitments: the Merkle tree over the leaves of a proposal, and what is signed for it. There is one
leaf for each chain and one for each operation, and the leaves are put in order before the tree is
built, so that the root does not depend on how the chains' operations are interleaved.
-/
import Quorate.Error

namespace Quorate

/-- The tree of a proposal, and the nonce of each operation. -/
structure Commitment where
  tree : Merkle.Tree
  nonces : List UInt64

namespace Commitment

/-! ## What is signed -/

/-- The bytes in front of a digest that is signed as a personal message. -/
def personalMark : List UInt8 := Text.bytes "\x19Ethereum Signed Message:\n32"

/-- The digest of a digest that is signed as a personal message. -/
def personal (d : Digest) : Digest := keccak256 (personalMark ++ d.bytes)

/-- The 64 bytes that a root and an expiry make. -/
def envelope (root : Digest) (validUntil : UInt32) : List UInt8 :=
  root.bytes ++ (Digest.padLeft (BigEndian.encode 4 validUntil.toNat)).bytes

/-- What signers sign for a root and an expiry. -/
def signingDigest (root : Digest) (validUntil : UInt32) : Digest :=
  personal (keccak256 (envelope root validUntil))

/-! ## Leaves -/

def encoder (encoders : Encoders) (chain : Selector) : Except Error Encoder :=
  encoders.find chain (.noEncoder chain)

/-- What a proposal knows of a chain. -/
def metadata (p : Proposal) (chain : Selector) : Except Error Metadata :=
  (p.metadata chain).mapError .proposal

/-- The leaf of a chain. -/
def metadataLeaf (encoders : Encoders) (p : Proposal) (chain : Selector) : Except Error Digest := do
  let e ← encoder encoders chain
  let m ← metadata p chain
  (e.metadataLeaf m).mapError .collaborator

/-- The leaf of an operation with its nonce. -/
def operationLeaf (encoders : Encoders) (p : Proposal) (nonce : UInt64) (op : Operation) :
    Except Error Digest := do
  let e ← encoder encoders op.chain
  let m ← metadata p op.chain
  (e.operationLeaf nonce m op).mapError .collaborator

/-- The leaves of the chains, ascending. -/
def metadataLeaves (encoders : Encoders) (p : Proposal) : Except Error (List Digest) :=
  p.selectors.mapM (metadataLeaf encoders p)

def operationLeaves (encoders : Encoders) (p : Proposal) (nonces : List UInt64) :
    Except Error (List Digest) :=
  (p.operations.zip nonces).mapM fun e => operationLeaf encoders p e.2 e.1

def ascending (leaves : List Digest) : List Digest := leaves.mergeSort fun a b => (compare a b).isLE

/-- The commitment to a proposal. The chains are encoded first, then the operations are numbered,
then they are encoded. -/
def ofProposal (encoders : Encoders) (p : Proposal) : Except Error Commitment := do
  let chainLeaves ← metadataLeaves encoders p
  let nonces ← p.nonces.mapError .proposal
  let leaves ← operationLeaves encoders p nonces
  .ok ⟨.ofLeaves (ascending (chainLeaves ++ leaves)), nonces⟩

end Commitment

end Quorate
