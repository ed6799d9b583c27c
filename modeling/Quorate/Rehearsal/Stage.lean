/-
The stage of a rehearsal: chains in memory as collaborators, and a log of what was asked of them.
-/
import Quorate.Merkle
import Quorate.Rehearsal.Chain

namespace Quorate.Rehearsal

/-- The chains, and what was asked of them, the latest last. -/
structure Stage where
  chains : List Chain
  log : List String

/-- Acts on a stage. -/
abbrev StageAct (α : Type) := Act Stage α

/-- Puts a line on the log. -/
def note (line : String) : StageAct Unit := modify fun s => { s with log := s.log ++ [line] }

def chainAt (index : Nat) : StageAct Chain := do
  match (← get).chains[index]? with
  | some c => return c
  | none => throw ⟨s!"no chain {index}"⟩

def setChain (index : Nat) (c : Chain) : StageAct Unit :=
  modify fun s => { s with chains := s.chains.set index c }

/-- Fails with a text, if there is one. -/
def failing : Option String → StageAct Unit
  | some text => throw ⟨text⟩
  | none => return ()

/-- Digests as they stand on the log. -/
def listed (ds : List Digest) : String := "|".intercalate (ds.map Digest.toHex)

/-- Asks a chain for something that it holds. -/
def ask {α : Type} (index : Nat) (what contract : String) (answer : Chain → α) : StageAct α := do
  let c ← chainAt index
  note s!"{c.selector}.{what}({contract})"
  failing c.trouble.inspect
  return answer c

def inspector (index : Nat) : Inspector Stage where
  policy contract := ask index "get_config" contract Chain.policy
  count contract := ask index "get_op_count" contract Chain.count

def simulator (index : Nat) : Simulator Stage where
  simulate m op := do
    let c ← chainAt index
    note s!"{c.selector}.simulate({m.contract},{op.call.target})"
    if c.trouble.simulationTo = some op.call.target then
      throw ⟨"execution reverted: " ++ op.call.target⟩

/-- Executes an operation on the chain at an index: the nonce has to be the count, which then goes
up by one. -/
def execute (index : Nat) (m : Metadata) (nonce : UInt64) (proof : List Digest) (op : Operation) :
    StageAct Receipt := do
  let c ← chainAt index
  let leaf ← c.operationLeaf nonce m op
  let root := Merkle.recombine leaf proof
  let arguments := ",".intercalate
    [m.contract, toString nonce.toNat, op.call.target, listed proof, root.toHex]
  note s!"{c.selector}.execute_operation({arguments})"
  failing c.trouble.execute
  if nonce ≠ c.count then throw ⟨s!"nonce {nonce} does not match op count {c.count}"⟩
  setChain index { c with count := c.count + 1 }
  return ⟨(keccak256 (wide nonce)).toHex, "evm", none⟩

def setRoot (index : Nat) (m : Metadata) (s : RootSubmission) : StageAct Receipt := do
  let c ← chainAt index
  let signatures := "|".intercalate (s.signatures.map fun sig => Hex.encode sig.toBytes)
  let arguments := ",".intercalate
    [m.contract, listed s.proof, s.root.toHex, toString s.validUntil.toNat, signatures]
  note s!"{c.selector}.set_root({arguments})"
  failing c.trouble.execute
  setChain index { c with rootInfo := ⟨s.root, s.validUntil⟩ }
  return ⟨s.root.toHex, "evm", none⟩

/-- The chain at an index as an executor, which encodes as the chain does at the time. -/
def executor (stage : Stage) (index : Nat) : Executor Stage where
  encoder := ((stage.chains[index]?).getD (.fresh default)).encoder
  setRoot := setRoot index
  execute := execute index

end Quorate.Rehearsal
