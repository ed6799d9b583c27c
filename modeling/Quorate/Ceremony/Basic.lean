/-
Ceremonies: a proposal that is committed to, signed, and brought to its chains. The tree and the
nonces are fixed when a ceremony starts; signatures are only ever added.
-/
import Quorate.Commitment
import Quorate.Signer

namespace Quorate

/-- A ceremony over a world of type `σ`. -/
structure Ceremony (σ : Type) where
  proposal : Proposal
  tree : Merkle.Tree
  nonces : List UInt64
  encoders : Encoders
  inspectors : Option (Inspectors σ)
  simulators : Option (Simulators σ)
  decoders : Option Decoders
  executors : Executors σ

namespace Ceremony

variable {σ : Type}

/-! ## Starting -/

/-- Starts a ceremony with encoders for the chains. -/
def start (p : Proposal) (encoders : Encoders) : Except Error (Ceremony σ) := do
  let c ← Commitment.ofProposal encoders p
  .ok ⟨p, c.tree, c.nonces, encoders, none, none, none, ∅⟩

def withExecutors (c : Ceremony σ) (executors : Executors σ) : Ceremony σ :=
  { c with executors := executors }

/-- Starts a ceremony with executors, each of which encodes for its chain. -/
def ofExecutors (p : Proposal) (executors : Executors σ) : Except Error (Ceremony σ) := do
  let c ← start p (executors.map fun _ x => x.encoder)
  .ok (c.withExecutors executors)

/-- The ceremony with other encoders. The tree stays as it is. -/
def withEncoders (c : Ceremony σ) (encoders : Encoders) : Ceremony σ :=
  { c with encoders := encoders }

def withInspectors (c : Ceremony σ) (inspectors : Inspectors σ) : Ceremony σ :=
  { c with inspectors := some inspectors }

def withSimulators (c : Ceremony σ) (simulators : Simulators σ) : Ceremony σ :=
  { c with simulators := some simulators }

def withDecoders (c : Ceremony σ) (decoders : Decoders) : Ceremony σ :=
  { c with decoders := some decoders }

def root (c : Ceremony σ) : Digest := c.tree.root

/-- What signers sign. -/
def signingDigest (c : Ceremony σ) : Digest :=
  Commitment.signingDigest c.root c.proposal.validUntil

/-- The state of the ceremony in one line: the root, the nonces, and the chains with an encoder. -/
def describe (c : Ceremony σ) : String :=
  let nonces := ", ".intercalate (c.nonces.map fun n => toString n.toNat)
  let chains := ", ".intercalate (c.encoders.keys.map Selector.describe)
  "Signable \x7b root: " ++ c.root.describe ++ ", tx_nonces: [" ++ nonces ++ "], chains: [" ++
    chains ++ "], .. \x7d"

/-! ## Signing -/

def addSignature (c : Ceremony σ) (sig : Signature) : Ceremony σ :=
  { c with proposal := c.proposal.addSignature sig }

/-- A signer's signature, while the proposal is valid. -/
def sign (c : Ceremony σ) (now : Int) (signer : Signer) : Except Error Signature := do
  (c.proposal.validateAt now).mapError .proposal
  (signer.signature c.signingDigest).mapError .signature

/-- A signer's signature, and the ceremony with it. -/
def signAndAppend (c : Ceremony σ) (now : Int) (signer : Signer) :
    Except Error (Signature × Ceremony σ) := do
  let sig ← c.sign now signer
  .ok (sig, c.addSignature sig)

/-- Who made a signature. -/
def signerOf (c : Ceremony σ) (sig : Signature) : Except Error Address :=
  (sig.recover c.signingDigest).mapError .signature

/-- Who made the signatures, in their order. -/
def signers (c : Ceremony σ) : Except Error (List Address) := c.proposal.signatures.mapM c.signerOf

/-- The signatures in the order of their signers; those of one signer keep their order. -/
def sortedSignatures (c : Ceremony σ) : Except Error (List Signature) := do
  let keyed ← c.proposal.signatures.mapM fun sig => (fun a => (a, sig)) <$> c.signerOf sig
  .ok ((keyed.mergeSort fun x y => (compare x.1 y.1).isLE).map (·.2))

end Ceremony

end Quorate
