/-
Trying operations out, and making them readable.
-/
import Quorate.Ceremony.Basic

namespace Quorate.Ceremony

variable {σ : Type}

/-- Simulates operations in turn, up to the first that fails. -/
def simulateAll (c : Ceremony σ) (simulators : Simulators σ) : List Operation → Step σ Unit
  | [] => pure ()
  | op :: ops => do
    let simulator ← (simulators.find op.chain (.noSimulator op.chain) : Except Error _)
    let metadata ← Commitment.metadata c.proposal op.chain
    asking (simulator.simulate metadata op)
    simulateAll c simulators ops

def simulate (c : Ceremony σ) : Step σ Unit :=
  match c.simulators with
  | none => throw .noSimulators
  | some simulators => c.simulateAll simulators c.proposal.operations

/-- An operation in readable form. -/
def decodeWith (decoders : Decoders) (op : Operation) : Except Error DecodedCall := do
  let decoder ← decoders.find op.chain (.noDecoder op.chain)
  (decoder.decode op).mapError .collaborator

def decode (c : Ceremony σ) : Except Error (List DecodedCall) :=
  match c.decoders with
  | none => .error .noDecoders
  | some decoders => c.proposal.operations.mapM (decodeWith decoders)

end Quorate.Ceremony
