/-
Drafts: proposals in the making, put together in steps and checked at the end.
-/
import Quorate.Proposal.Basic

namespace Quorate

/-- A draft holds the proposal as it is so far. -/
structure Draft where
  soFar : Proposal

namespace Draft

def empty : Draft := ⟨⟨"", 0, [], false, ∅, "", []⟩⟩

/-- A step of drafting. -/
inductive Step where
  | version (text : String)
  | validUntil (time : UInt32)
  | description (text : String)
  | overridesRoot (flag : Bool)
  | chain (selector : Selector) (metadata : Metadata)
  | operations (list : List Operation)
  | signature (sig : Signature)

/-- A draft after a step. Chains are added or replaced; operations and signatures are appended. -/
def after (d : Draft) : Step → Draft
  | .version text => ⟨{ d.soFar with version := text }⟩
  | .validUntil time => ⟨{ d.soFar with validUntil := time }⟩
  | .description text => ⟨{ d.soFar with description := text }⟩
  | .overridesRoot flag => ⟨{ d.soFar with overridesRoot := flag }⟩
  | .chain selector metadata => ⟨{ d.soFar with chains := d.soFar.chains.insert selector metadata }⟩
  | .operations list => ⟨{ d.soFar with operations := d.soFar.operations ++ list }⟩
  | .signature sig => ⟨d.soFar.addSignature sig⟩

def ofSteps (steps : List Step) : Draft := steps.foldl after empty

/-- The proposal, if it is valid at a time. -/
def build (d : Draft) (now : Int) : Except Proposal.Fault Proposal := d.soFar.validated now

end Draft

end Quorate
