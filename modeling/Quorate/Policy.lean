/-
Quorum policies. A policy asks for a number of approvals out of its members and its groups, and each
group is a policy of its own, so a policy is a tree. A group that is at consensus counts as one
approval, however many of its members signed.
-/
import Quorate.Address

namespace Quorate

/-- A quorum policy: how many approvals it takes, whose approvals count, and the groups that count
as one approval each. -/
inductive Policy where
  | node (quorum : UInt8) (members : List Address) (groups : List Policy)

namespace Policy

instance : Inhabited Policy := ⟨node 0 [] []⟩

/-- The number of approvals that the policy takes. -/
def quorum : Policy → UInt8
  | node q _ _ => q

def members : Policy → List Address
  | node _ ms _ => ms

def groups : Policy → List Policy
  | node _ _ gs => gs

/-- How many approvals there can be at the top of the policy. -/
def capacity (p : Policy) : Nat := p.members.length + p.groups.length

mutual

/-- Every member in the tree, a node before its groups. One who belongs to several groups is listed
once for each. -/
def allMembers : Policy → List Address
  | node _ ms gs => ms ++ allMembersOf gs

/-- The members of all groups of a list. -/
def allMembersOf : List Policy → List Address
  | [] => []
  | g :: gs => allMembers g ++ allMembersOf gs

end

/-! ## Validity -/

/-- Why a policy is not valid. -/
inductive Fault where
  | zeroQuorum
  | noApprovers
  | quorumExceedsCapacity (quorum : UInt8) (capacity : Nat)
  deriving DecidableEq, Repr

def Fault.message : Fault → String
  | .zeroQuorum => "invalid MCMS config: Quorum must be greater than 0"
  | .noApprovers => "invalid MCMS config: Config must have at least one signer or group"
  | .quorumExceedsCapacity quorum capacity =>
    s!"invalid MCMS config: Quorum ({quorum}) must be less than or equal to " ++
      s!"the number of signers and groups ({capacity})"

/-- What is wrong with the top of a policy. -/
def fault? (p : Policy) : Option Fault :=
  if p.quorum = 0 then some .zeroQuorum
  else if p.capacity = 0 then some .noApprovers
  else if p.capacity < p.quorum.toNat then some (.quorumExceedsCapacity p.quorum p.capacity)
  else none

mutual

/-- Checks every node, a node before its groups. The first fault is reported. -/
def validate : Policy → Except Fault Unit
  | node q ms gs =>
    match fault? (node q ms gs) with
    | some fault => .error fault
    | none => validateAll gs

/-- Checks the groups of a list in turn. -/
def validateAll : List Policy → Except Fault Unit
  | [] => .ok ()
  | g :: gs =>
    match validate g with
    | .error fault => .error fault
    | .ok () => validateAll gs

end

/-- The policy with the given parts, if it is valid. -/
def make (quorum : UInt8) (members : List Address) (groups : List Policy) : Except Fault Policy :=
  let p := node quorum members groups
  (fun _ => p) <$> p.validate

/-! ## Equality up to order -/

mutual

/-- Whether two policies differ at most in the order of members and groups. Each group takes the
first of the remaining groups on the other side that matches it. -/
def sameAs : Policy → Policy → Bool
  | node q ms gs, other =>
    q == other.quorum && ms.isPerm other.members && gs.length == other.groups.length &&
      matchAll gs other.groups

/-- Whether each group of a list finds a match of its own in the pool. -/
def matchAll : List Policy → List Policy → Bool
  | [], _ => true
  | g :: gs, pool =>
    match pool.findIdx? (sameAs g) with
    | some i => matchAll gs (pool.eraseIdx i)
    | none => false

end

instance : BEq Policy := ⟨sameAs⟩

/-! ## Consensus -/

mutual

/-- Whether enough members and groups approve, given who signed. -/
def atConsensus (signed : List Address) : Policy → Bool
  | node q ms gs => q.toNat ≤ ms.countP (signed.contains ·) + approvals signed gs

def approvals (signed : List Address) : List Policy → Nat
  | [] => 0
  | g :: gs => (if atConsensus signed g then 1 else 0) + approvals signed gs

end

/-- Whether those who signed may set a root. The first of them who belongs to no group is the
error. -/
def authorizes (p : Policy) (signed : List Address) : Except Address Bool :=
  match signed.find? (!p.allMembers.contains ·) with
  | some stranger => .error stranger
  | none => .ok (p.atConsensus signed)

end Policy

end Quorate
