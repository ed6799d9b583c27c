/-
Drafting: what a draft holds after its steps. The last word on a chain stands and so does the last
word on the expiry, and the operations are those of all steps. So it is of no account in which order
the steps for different chains are taken.
-/
import Quorate.Proofs.Proposal.Ranks
import Quorate.Proposal.Draft
import Mathlib.Data.List.Induction

namespace Quorate.Draft

/-! ## What a step says -/

def Step.metadataOf (chain : Selector) : Step → Option Metadata
  | .chain selector m => if selector = chain then some m else none
  | _ => none

def Step.expiry : Step → Option UInt32
  | .validUntil time => some time
  | _ => none

def Step.appended : Step → List Operation
  | .operations list => list
  | _ => []

theorem get?_after (d : Draft) (step : Step) (chain : Selector) :
    (d.after step).soFar.chains.get? chain =
      (step.metadataOf chain).or (d.soFar.chains.get? chain) := by
  cases step with
  | chain selector m =>
    rw [after, Table.get?_insert, Step.metadataOf]
    by_cases hc : selector = chain
    · rw [if_pos hc, if_pos hc.symm, Option.some_or]
    · rw [if_neg hc, if_neg (fun h => hc h.symm), Option.none_or]
  | _ => rfl

theorem validUntil_after (d : Draft) (step : Step) :
    (d.after step).soFar.validUntil = step.expiry.getD d.soFar.validUntil := by
  cases step <;> rfl

theorem operations_after (d : Draft) (step : Step) :
    (d.after step).soFar.operations = d.soFar.operations ++ step.appended := by
  cases step with
  | operations list => rfl
  | _ => exact (List.append_nil _).symm

/-! ## What steps lead to -/

theorem ofSteps_concat (steps : List Step) (step : Step) :
    ofSteps (steps ++ [step]) = (ofSteps steps).after step := List.foldl_concat ..

theorem getLast?_filterMap_concat {α β : Type} (f : α → Option β) (l : List α) (a : α) :
    ((l ++ [a]).filterMap f).getLast? = (f a).or (l.filterMap f).getLast? := by
  rw [List.filterMap_append, List.getLast?_append, List.filterMap_cons, List.filterMap_nil]
  cases f a <;> rfl

theorem get?_ofSteps (steps : List Step) (chain : Selector) :
    (ofSteps steps).soFar.chains.get? chain =
      (steps.filterMap (Step.metadataOf chain)).getLast? := by
  induction steps using List.reverseRecOn with
  | nil => rfl
  | append_singleton steps step ih =>
    rw [ofSteps_concat, get?_after, ih, getLast?_filterMap_concat]

theorem validUntil_ofSteps (steps : List Step) :
    (ofSteps steps).soFar.validUntil = (steps.filterMap Step.expiry).getLast?.getD 0 := by
  induction steps using List.reverseRecOn with
  | nil => rfl
  | append_singleton steps step ih =>
    rw [ofSteps_concat, validUntil_after, ih, getLast?_filterMap_concat]
    cases step.expiry <;> rfl

theorem operations_ofSteps (steps : List Step) :
    (ofSteps steps).soFar.operations = steps.flatMap Step.appended := by
  induction steps using List.reverseRecOn with
  | nil => rfl
  | append_singleton steps step ih =>
    rw [ofSteps_concat, operations_after, ih, List.flatMap_append, List.flatMap_singleton]

/-! ## Steps in any order -/

/-- Steps that have the same last word on the expiry and on each chain, and append the same
operations on each chain in the same order. -/
structure AlikeByChain (steps steps' : List Step) : Prop where
  expiry : (steps.filterMap Step.expiry).getLast? = (steps'.filterMap Step.expiry).getLast?
  metadata : ∀ chain, (steps.filterMap (Step.metadataOf chain)).getLast? =
    (steps'.filterMap (Step.metadataOf chain)).getLast?
  operations : ∀ chain, (steps.flatMap Step.appended).filter (·.chain = chain) =
    (steps'.flatMap Step.appended).filter (·.chain = chain)

theorem AlikeByChain.ofSteps {steps steps' : List Step} (h : AlikeByChain steps steps') :
    (ofSteps steps).soFar.AlikeByChain (ofSteps steps').soFar := by
  refine ⟨?_, fun chain => ?_, fun chain => ?_⟩
  · rw [validUntil_ofSteps, validUntil_ofSteps, h.expiry]
  · rw [get?_ofSteps, get?_ofSteps, h.metadata]
  · rw [operations_ofSteps, operations_ofSteps, h.operations]

end Quorate.Draft
