/-
A small proposal, with encoders for it and policies for its chains, on which statements about valid
proposals and policies are tried. The encoders are blind: all leaves are one digest.
-/
import Quorate.Family
import Quorate.Proposal.Draft
import Quorate.Signer

namespace Quorate.Sample

def one : Selector := ⟨1⟩

def two : Selector := ⟨2⟩

/-- A call without data on a chain. -/
def call (chain : Selector) : Operation := ⟨chain, ⟨"0xa", [], .null, ⟨"", []⟩⟩⟩

/-- Three operations on two chains; the first chain starts from seven. -/
def proposal : Proposal where
  version := "v1"
  validUntil := 4000000000
  signatures := []
  overridesRoot := false
  chains := Table.ofList [(one, ⟨7, "0x01", none⟩), (two, ⟨0, "0x02", none⟩)]
  description := "two chains"
  operations := [call one, call two, call one]

theorem valid : proposal.validateAt 0 = .ok () := rfl

/-- A call to another target on the first chain. -/
def otherCall : Operation := ⟨one, ⟨"0xb", [], .null, ⟨"", []⟩⟩⟩

/-- Steps that lead to a proposal. -/
def steps : List Draft.Step :=
  [.version "v1", .validUntil 4000000000, .chain one ⟨7, "0x01", none⟩,
    .chain two ⟨0, "0x02", none⟩, .description "two chains",
    .operations [call one, call two, otherCall]]

/-- Other steps, which lead to the same on each chain. At first they take the second chain to start
from five. -/
def otherSteps : List Draft.Step :=
  [.operations [call two], .chain two ⟨5, "0x02", none⟩, .description "again two chains",
    .operations [call one, otherCall], .chain one ⟨7, "0x01", none⟩, .validUntil 4000000000,
    .overridesRoot true, .chain two ⟨0, "0x02", none⟩, .version "v2"]

/-- An encoder that makes the same leaf of everything. -/
def blind : Encoder := ⟨fun _ => .ok .zero, fun _ _ _ => .ok .zero⟩

def encoders : Encoders := proposal.chains.map fun _ _ => blind

/-- What signers sign for the proposal, its leaves being made by blind encoders. -/
def payload : Digest :=
  .ofNat 0xfa2f0d725b922b86b965e3de73c3cbc642e4918b25c424281a81effe35f88c78

/-- An encoder that makes of each nonce a leaf of its own. -/
def telling : Encoder := ⟨fun m => .ok (.ofNat m.startingCount.toNat),
  fun nonce _ _ => .ok (.ofNat (100 + nonce.toNat))⟩

/-- A family that answers every request with the same encoder. -/
def family (name : String) (e : Encoder) : Family Unit := ⟨name, fun _ => pure e⟩

/-- An executor that takes whatever it is handed. -/
def willing : Executor Unit where
  encoder := blind
  setRoot _ _ := pure ⟨"", "evm", none⟩
  execute _ _ _ _ := pure ⟨"", "evm", none⟩

def executors : Executors Unit := proposal.chains.map fun _ _ => willing

/-- An inspector of a contract that holds a policy and has counted nothing. -/
def holding (policy : Policy) : Inspector Unit := ⟨fun _ => pure policy, fun _ => pure 0⟩

/-- An inspector of a contract that gives the same answer whenever it is asked for its policy. -/
def answering (answer : Except Complaint Policy) : Inspector Unit :=
  ⟨fun _ => liftM answer, fun _ => pure 0⟩

def signature : Signature := ⟨.zero, .zero, 27⟩

/-- A signer who answers everything with the same bytes. -/
def stamp (bytes : List UInt8) : Signer := ⟨fun _ => .ok bytes⟩

/-- The key of one, whose public key is the generator. -/
def firstKey : PrivateKey := ⟨1, Curve.generator, by decide +kernel⟩

/-- The key of two. -/
def secondKey : PrivateKey where
  secret := 2
  publicKey :=
    ⟨0xC6047F9441ED7D6D3045406E95C07CD85C778E4B8CEF3CA7ABAC09B95C709EE5,
      0x1AE168FEA63DC339A3C58419466CEAEEF7F632653266D0E1236431A950CFE52A⟩
  publicKey_eq := by decide +kernel

/-- Addresses told apart by their last byte. -/
def member (n : UInt8) : Address := ⟨List.replicate 19 0 ++ [n], by simp⟩

/-- Two approvals out of a member and two groups, the groups being dearer than the member. -/
def council : Policy :=
  .node 2 [member 1] [.node 2 [member 2, member 3, member 4] [],
    .node 3 [member 5, member 6, member 7] []]

def reseated : Policy :=
  .node 2 [member 1] [.node 3 [member 7, member 5, member 6] [],
    .node 2 [member 3, member 4, member 2] []]

/-- The council on the first chain, another policy on the second. -/
def held (other : Policy) (chain : Selector) : Policy := if chain = one then council else other

end Quorate.Sample
