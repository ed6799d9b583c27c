/-
Quorum checks: whether the signatures satisfy the policies that the chains hold at the time.
-/
import Quorate.Ceremony.Basic

namespace Quorate.Ceremony

variable {σ : Type}

def inspector (c : Ceremony σ) (chain : Selector) : Except Error (Inspector σ) :=
  match c.inspectors with
  | none => .error .noInspectors
  | some inspectors => inspectors.find chain (.noInspector chain)

/-! ## One chain -/

/-- Whether signers may set the root under a policy. -/
def authorized (policy : Policy) (signers : List Address) : Except Error Bool :=
  (policy.authorizes signers).mapError .unknownSigner

/-- Whether the signatures suffice for a chain. The chain is asked for its policy last. -/
def checkQuorum (c : Ceremony σ) (chain : Selector) : Step σ Bool := do
  let inspector ← c.inspector chain
  let metadata ← Commitment.metadata c.proposal chain
  let signers ← c.signers
  let policy ← asking (inspector.policy metadata.contract)
  authorized policy signers

/-! ## All chains -/

/-- Checks that the signatures suffice for each chain of a list in turn. -/
def requireQuorum (c : Ceremony σ) : List Selector → Step σ Unit
  | [] => pure ()
  | chain :: rest => do
    let reached ← c.checkQuorum chain
    if reached then requireQuorum c rest else throw (.quorumNotReached chain)

/-- Checks that the signatures suffice for every chain; the first for which they do not is the
error. -/
def validateSignatures (c : Ceremony σ) : Step σ Bool := do
  c.requireQuorum c.proposal.selectors
  return true

/-- The chains with their inspectors. None is asked before all are there. -/
def inspected (c : Ceremony σ) : Except Error (List (Selector × Metadata × Inspector σ)) :=
  c.proposal.chains.entries.mapM fun e => (fun i => (e.1, e.2, i)) <$> c.inspector e.1

/-- What a question to each chain brings, ascending. -/
def askAll {α : Type} (c : Ceremony σ) (question : Inspector σ → String → Act σ α) :
    Step σ (List (Selector × α)) := do
  let chains ← c.inspected
  chains.mapM fun e => (fun a => (e.1, a)) <$> asking (question e.2.2 e.2.1.contract)

def policies (c : Ceremony σ) : Step σ (List (Selector × Policy)) := c.askAll Inspector.policy

def counts (c : Ceremony σ) : Step σ (List (Selector × UInt64)) := c.askAll Inspector.count

/-- The first policy that differs from the one before it, by more than order. -/
def firstChange? : List (Selector × Policy) → Option (Selector × Selector)
  | a :: b :: rest => if b.2.sameAs a.2 then firstChange? (b :: rest) else some (b.1, a.1)
  | _ => none

/-- Checks that all chains hold the same policy. -/
def validatePolicies (c : Ceremony σ) : Step σ Unit := do
  match firstChange? (← c.policies) with
  | some (chain, before) => throw (.inconsistentPolicies chain before)
  | none => return ()

end Quorate.Ceremony
