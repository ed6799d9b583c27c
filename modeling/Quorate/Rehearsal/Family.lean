/-
Families in memory, for rehearsals: each writes its requests on a log and answers as it is told to.
-/
import Quorate.Family
import Quorate.Hash.Keccak

namespace Quorate.Rehearsal

/-- What a family in memory is told: its name, the tag that it writes, what it says if it fails, and
whether its chains need a number. -/
structure FamilyPlan where
  name : String
  tag : String
  fail : Option String
  needsId : Bool

/-- A request in one line. -/
def FamilyPlan.line (plan : FamilyPlan) (r : EncoderRequest) : String :=
  let id := match r.settings.evmChainId with
    | some n => toString n.toNat
    | none => "none"
  "/".intercalate [plan.tag, toString r.chain, r.settings.family, r.settings.name, id,
    toString r.count, toString r.overridesRoot]

/-- The encoder that answers a request: its leaves name the request. -/
def FamilyPlan.answer (plan : FamilyPlan) (r : EncoderRequest) : Encoder where
  metadataLeaf m := .ok (keccak256 (Text.bytes s!"{plan.line r}:{m.contract}"))
  operationLeaf nonce _ op :=
    .ok (keccak256 (Text.bytes s!"{plan.line r}:{nonce}:{op.call.target}"))

/-- The family of a plan. Requests are put on a log. -/
def FamilyPlan.family (plan : FamilyPlan) : Family (List String) where
  name := plan.name
  encoder r := do
    modify (· ++ [plan.line r])
    match plan.fail with
    | some text => throw ⟨text⟩
    | none =>
      if plan.needsId && r.settings.evmChainId.isNone then
        throw ⟨s!"chain {r.chain} has no evm chain id"⟩
      return plan.answer r

end Quorate.Rehearsal
