/-
Errors of a ceremony, by cause, and the steps on a world that end in them. Some errors mean that the
signatures do not authorise the root, some that a collaborator for a chain is missing. The complaints
of collaborators become errors.
-/
import Quorate.Chain.Collaborator
import Quorate.Merkle
import Quorate.Proposal.Basic
import Quorate.Settings.Basic

namespace Quorate

/-- Why a step of a ceremony fails. -/
inductive Error where
  | proposal (fault : Proposal.Fault)
  | policy (fault : Policy.Fault)
  | merkle (fault : Merkle.Fault)
  | indexOutOfRange (index length : Nat)
  | quorumNotReached (chain : Selector)
  | inconsistentPolicies (chain before : Selector)
  | unknownSigner (address : Address)
  | signature (error : SignatureError)
  | noEncoder (chain : Selector)
  | noInspectors
  | noInspector (chain : Selector)
  | noSimulators
  | noSimulator (chain : Selector)
  | noDecoders
  | noDecoder (chain : Selector)
  | noExecutor (chain : Selector)
  | unsettledChain (chain : Selector)
  | unsupportedFamily (name : String)
  | settings (fault : Settings.Fault)
  | malformed
  | collaborator (complaint : Complaint)
  deriving DecidableEq

namespace Error

/-- The wording of an error. What a collaborator says is passed on as it is. -/
def message : Error → String
  | proposal fault => fault.message
  | policy fault => fault.message
  | merkle fault => fault.message
  | indexOutOfRange index length => s!"index out of range: {index} >= {length}"
  | quorumNotReached chain => s!"quorum not reached for chain {chain}"
  | inconsistentPolicies chain before => s!"inconsistent configs for chains {chain} and {before}"
  | unknownSigner address =>
    s!"invalid signature: received signature for address {address} " ++
      "is not a valid signer in the MCMS proposal"
  | signature error => error.message
  | noEncoder chain => s!"encoder not provided for chain selector {chain}"
  | noInspectors => "inspectors not provided"
  | noInspector chain => s!"inspector not found for chain {chain}"
  | noSimulators => "simulators not provided"
  | noSimulator chain => s!"simulator not found for chain {chain}"
  | noDecoders => "decoders not provided"
  | noDecoder chain => s!"decoder not found for chain {chain}"
  | noExecutor chain => s!"executor not found for chain {chain}"
  | unsettledChain chain => s!"chain {chain} is not present in the chain settings"
  | unsupportedFamily name => s!"unsupported chain family: {name}"
  | settings fault => "configuration error: " ++ fault.message
  | malformed => "serialization error"
  | collaborator complaint => complaint.text

/-- Whether the error says that the signatures do not authorise the root. -/
def isConsensus : Error → Bool
  | quorumNotReached _ | inconsistentPolicies _ _ | unknownSigner _ => true
  | _ => false

/-- Whether the error says that a collaborator is missing. -/
def isMissing : Error → Bool
  | noEncoder _ | noInspectors | noInspector _ | noSimulators | noSimulator _ | noDecoders
  | noDecoder _ | noExecutor _ => true
  | _ => false

end Error

namespace Ceremony

/-- A step of a ceremony on a world. What a failing step did to the world stays done. -/
abbrev Step (σ α : Type) := ExceptT Error (StateM σ) α

/-- An act of a collaborator as a step. -/
def asking {σ α : Type} (act : Act σ α) : Step σ α := act.adapt .collaborator

end Ceremony

end Quorate
