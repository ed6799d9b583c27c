/-
Collaborators: what a ceremony needs from the chains. An encoder and a decoder are functions of what
they are given. The others act on a world of type `σ`, and what a failing act did to it stays done.
-/
import Quorate.Chain.Operation
import Quorate.Policy
import Quorate.Signature

namespace Quorate

/-- What a collaborator says when it fails. -/
structure Complaint where
  text : String
  deriving DecidableEq

/-- An act of a collaborator on a world. -/
abbrev Act (σ α : Type) := ExceptT Complaint (StateM σ) α

/-- An encoder makes the leaves that stand for a chain and for its operations. -/
structure Encoder where
  metadataLeaf : Metadata → Except Complaint Digest
  operationLeaf : (nonce : UInt64) → Metadata → Operation → Except Complaint Digest

/-- An inspector asks the contract at an address for its policy and its count of operations. -/
structure Inspector (σ : Type) where
  policy : (contract : String) → Act σ Policy
  count : (contract : String) → Act σ UInt64

/-- A simulator tries an operation out. -/
structure Simulator (σ : Type) where
  simulate : Metadata → Operation → Act σ Unit

/-- A decoder makes an operation readable. -/
structure Decoder where
  decode : Operation → Except Complaint DecodedCall

/-- What is handed in with a root: the proof of the chain's leaf, the root, its expiry, and
signatures in the order of their signers. -/
structure RootSubmission where
  proof : List Digest
  root : Digest
  validUntil : UInt32
  signatures : List Signature
  deriving DecidableEq

/-- An executor submits roots and operations, and encodes for its chain. -/
structure Executor (σ : Type) where
  encoder : Encoder
  setRoot : Metadata → RootSubmission → Act σ Receipt
  execute : Metadata → (nonce : UInt64) → (proof : List Digest) → Operation → Act σ Receipt

abbrev Encoders := Table Selector Encoder

abbrev Inspectors (σ : Type) := Table Selector (Inspector σ)

abbrev Simulators (σ : Type) := Table Selector (Simulator σ)

abbrev Decoders := Table Selector Decoder

abbrev Executors (σ : Type) := Table Selector (Executor σ)

end Quorate
