/-
Proposals: a batch of calls on several chains that is signed as a whole and holds until a given
time. A proposal is valid at a time before that, if it has all of its parts and knows the chain of
each call.
-/
import Quorate.Chain.Operation
import Quorate.Signature
import Quorate.Table

namespace Quorate

/-- A proposal. -/
structure Proposal where
  version : String
  validUntil : UInt32
  signatures : List Signature
  overridesRoot : Bool
  chains : Table Selector Metadata
  description : String
  operations : List Operation
  deriving BEq

namespace Proposal

/-- Why a proposal is not valid, or its operations cannot be numbered. -/
inductive Fault where
  | noVersion
  | expired (validUntil : UInt32)
  | noChains
  | noOperations
  | noDescription
  | unknownChain (chain : Selector)
  | countOverflow (chain : Selector)
  deriving DecidableEq

def Fault.message : Fault → String
  | .noVersion => "invalid proposal: version is required"
  | .expired validUntil => s!"invalid valid until: {validUntil}"
  | .noChains => "invalid proposal: chain metadata is required"
  | .noOperations => "invalid proposal: at least one transaction is required"
  | .noDescription => "invalid proposal: description is required"
  | .unknownChain chain => s!"missing metadata for chain {chain}"
  | .countOverflow chain => s!"op count overflow on chain {chain}"

def selectors (p : Proposal) : List Selector := p.chains.keys

def metadata (p : Proposal) (chain : Selector) : Except Fault Metadata :=
  p.chains.find chain (.unknownChain chain)

/-- The proposal with one more signature, behind the others. -/
def addSignature (p : Proposal) (sig : Signature) : Proposal :=
  { p with signatures := p.signatures ++ [sig] }

/-! ## Validity -/

/-- The first operation whose chain is not known. -/
def stray? (p : Proposal) : Option Operation :=
  p.operations.find? fun op => !p.chains.contains op.chain

/-- Checks the proposal at a time, in seconds. What is amiss first is reported: the version, the
expiry, the chains, the operations, the description, an operation on a chain that is not known. -/
def validateAt (p : Proposal) (now : Int) : Except Fault Unit :=
  if p.version.isEmpty then .error .noVersion
  else if (p.validUntil.toNat : Int) ≤ now then .error (.expired p.validUntil)
  else if p.chains.isEmpty then .error .noChains
  else if p.operations.isEmpty then .error .noOperations
  else if p.description.isEmpty then .error .noDescription
  else
    match p.stray? with
    | some op => .error (.unknownChain op.chain)
    | none => .ok ()

/-- The proposal, if it is valid at a time. -/
def validated (p : Proposal) (now : Int) : Except Fault Proposal :=
  (fun _ => p) <$> p.validateAt now

/-! ## Counts and nonces -/

/-- The number of operations on each chain that has any. -/
def counts (p : Proposal) : Table Selector Nat :=
  p.operations.foldl (fun t op => t.insert op.chain ((t.get? op.chain).getD 0 + 1)) ∅

/-- The nonces of operations in order, given the next nonce of each chain that has had one. A chain
has none left once the last one is used. -/
def noncesFrom (p : Proposal) (next : Table Selector (Option UInt64)) :
    List Operation → Except Fault (List UInt64)
  | [] => .ok []
  | op :: ops => do
    let m ← p.metadata op.chain
    match (next.get? op.chain).getD (some m.startingCount) with
    | none => .error (.countOverflow op.chain)
    | some nonce =>
      let after := if nonce.toNat + 1 < UInt64.size then some (nonce + 1) else none
      let rest ← noncesFrom p (next.insert op.chain after) ops
      .ok (nonce :: rest)

/-- The nonce of each operation: its chain's starting count and one more for each earlier operation
on the chain. -/
def nonces (p : Proposal) : Except Fault (List UInt64) := p.noncesFrom ∅ p.operations

end Proposal

end Quorate
