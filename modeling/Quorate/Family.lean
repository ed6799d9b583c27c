/-
Families of chains. A family makes the encoders of its chains; a registry knows families by name and
finds, through the settings, the one that each chain of a proposal belongs to.
-/
import Quorate.Error

namespace Quorate

/-- What a family is asked for: an encoder for a chain with its settings, given how many operations
there are on it and whether an earlier root is overridden. -/
structure EncoderRequest where
  chain : Selector
  settings : ChainSettings
  count : Nat
  overridesRoot : Bool
  deriving DecidableEq

/-- A family of chains. -/
structure Family (σ : Type) where
  name : String
  encoder : EncoderRequest → Act σ Encoder

/-- Families by name. -/
structure Registry (σ : Type) where
  families : Table String (Family σ)

namespace Registry

variable {σ : Type}

def empty : Registry σ := ⟨∅⟩

/-- Adds a family, in place of one with the same name. -/
def register (r : Registry σ) (f : Family σ) : Registry σ := ⟨r.families.insert f.name f⟩

def family (r : Registry σ) (name : String) : Except Error (Family σ) :=
  r.families.find name (.unsupportedFamily name)

def names (r : Registry σ) : List String := r.families.keys

/-- The names, marked as a registry. -/
def describe (r : Registry σ) : String :=
  let names := r.names.map fun n => Text.quoted '"' n.toList
  "FamilyRegistry \x7b families: [" ++ ", ".intercalate names ++ "] \x7d"

end Registry

def Settings.chain (s : Settings) (chain : Selector) : Except Error ChainSettings :=
  s.chains.find chain (.unsettledChain chain)

def Settings.familyOf (s : Settings) (chain : Selector) : Except Error String :=
  ChainSettings.family <$> s.chain chain

namespace Registry

variable {σ : Type}

/-- The family of a chain, and what it is asked for. -/
def request (r : Registry σ) (s : Settings) (p : Proposal) (chain : Selector) :
    Except Error (Family σ × EncoderRequest) := do
  let family ← r.family (← s.familyOf chain)
  let settings ← s.chain chain
  .ok (family, ⟨chain, settings, (p.counts.get? chain).getD 0, p.overridesRoot⟩)

/-- The encoder of a chain, with the chain. -/
def encoderFor (r : Registry σ) (s : Settings) (p : Proposal) (chain : Selector) :
    Ceremony.Step σ (Selector × Encoder) := do
  let (family, request) ← r.request s p chain
  let encoder ← Ceremony.asking (family.encoder request)
  return (chain, encoder)

/-- The encoders of the chains of a proposal, made in ascending order up to the first failure. -/
def encodersFor (r : Registry σ) (p : Proposal) (s : Settings) : Ceremony.Step σ Encoders :=
  Table.ofList <$> p.selectors.mapM (r.encoderFor s p)

end Registry

end Quorate
