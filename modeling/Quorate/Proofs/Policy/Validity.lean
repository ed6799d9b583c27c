/-
Validity: a policy is valid when each of its nodes is sound, that is, when the node asks for an
approval at least, has someone to give it, and does not ask for more than it can be given. Otherwise
the first flawed node is reported, a node before its groups, with what is amiss first there. What is
asked of each node alone is enough for the whole: the members of a valid policy can bring it to
consensus, and it is never there before anyone signed.
-/
import Quorate.Proofs.Policy.Coalition
import Quorate.Proofs.Policy.Monotone
import Quorate.Proofs.Policy.Nodes
import Quorate.Proofs.Policy.Unguarded

namespace Quorate.Policy

/-! ## Sound and flawed nodes -/

/-- What is asked of the top of a policy, whatever its groups are. -/
structure Sound (p : Policy) : Prop where
  positive : 1 ≤ p.quorum.toNat
  manned : p.members ≠ [] ∨ p.groups ≠ []
  reachable : p.quorum.toNat ≤ p.members.length + p.groups.length

/-- What is amiss first at the top of a policy, in the order in which it is looked for. -/
inductive Flaw (p : Policy) : Fault → Prop
  | zeroQuorum : p.quorum.toNat = 0 → Flaw p .zeroQuorum
  | noApprovers : 1 ≤ p.quorum.toNat → p.members = [] → p.groups = [] → Flaw p .noApprovers
  | quorumExceedsCapacity : 1 ≤ p.quorum.toNat → (p.members ≠ [] ∨ p.groups ≠ []) →
      p.members.length + p.groups.length < p.quorum.toNat →
      Flaw p (.quorumExceedsCapacity p.quorum (p.members.length + p.groups.length))

theorem capacity_eq_zero {p : Policy} : p.capacity = 0 ↔ p.members = [] ∧ p.groups = [] := by
  rw [capacity, Nat.add_eq_zero_iff, List.length_eq_zero_iff, List.length_eq_zero_iff]

theorem capacity_ne_zero {p : Policy} : p.capacity ≠ 0 ↔ p.members ≠ [] ∨ p.groups ≠ [] := by
  rw [Ne, capacity_eq_zero, not_and_or]

theorem quorum_ne_zero {p : Policy} : p.quorum ≠ 0 ↔ 1 ≤ p.quorum.toNat := by
  rw [Ne, quorum_eq_zero, Nat.one_le_iff_ne_zero]

theorem fault?_eq_none_iff_sound {p : Policy} : p.fault? = none ↔ Sound p := by
  rw [fault?_eq_none]
  constructor
  · rintro ⟨hpositive, hreachable⟩
    have hcapacity : p.capacity ≠ 0 := by omega
    exact ⟨hpositive, capacity_ne_zero.1 hcapacity, hreachable⟩
  · rintro ⟨hpositive, _, hreachable⟩
    exact ⟨hpositive, hreachable⟩

theorem fault?_eq_some_iff_flaw {p : Policy} {fault : Fault} :
    p.fault? = some fault ↔ Flaw p fault := by
  unfold fault?
  constructor
  · intro h
    split at h
    · rename_i hzero
      cases h
      exact .zeroQuorum (quorum_eq_zero.1 hzero)
    rename_i hpositive
    split at h
    · rename_i hempty
      cases h
      obtain ⟨hms, hgs⟩ := capacity_eq_zero.1 hempty
      exact .noApprovers (quorum_ne_zero.1 hpositive) hms hgs
    rename_i hmanned
    split at h
    · rename_i hshort
      cases h
      exact .quorumExceedsCapacity (quorum_ne_zero.1 hpositive) (capacity_ne_zero.1 hmanned) hshort
    · cases h
  · intro h
    cases h with
    | zeroQuorum hzero => rw [if_pos (quorum_eq_zero.2 hzero)]
    | noApprovers hpositive hms hgs =>
      rw [if_neg (quorum_ne_zero.2 hpositive), if_pos (capacity_eq_zero.2 ⟨hms, hgs⟩)]
    | quorumExceedsCapacity hpositive hmanned hshort =>
      have hshort : p.capacity < p.quorum.toNat := hshort
      rw [if_neg (quorum_ne_zero.2 hpositive), if_neg (capacity_ne_zero.2 hmanned), if_pos hshort]
      rfl

/-! ## The first flaw -/

/-- The answer to a check: the fault that it found, if any. -/
def answer : Option Fault → Except Fault Unit
  | some fault => .error fault
  | none => .ok ()

mutual

/-- The check of a policy looks for the first fault at a node. -/
theorem validate_eq : ∀ p : Policy, p.validate = answer (p.nodes.findSome? fault?)
  | node q ms gs => by
    rw [validate, nodes, List.findSome?_cons, validateAll_eq gs]
    cases (node q ms gs).fault? <;> rfl

theorem validateAll_eq : ∀ gs : List Policy, validateAll gs = answer ((nodesOf gs).findSome? fault?)
  | [] => rfl
  | g :: gs => by
    rw [validateAll, nodesOf, List.findSome?_append, validate_eq g, validateAll_eq gs]
    cases (nodes g).findSome? fault? <;> rfl

end

theorem validate_eq_ok {p : Policy} : p.validate = .ok () ↔ ∀ n ∈ p.nodes, Sound n := by
  simp only [← fault?_eq_none_iff_sound, ← List.findSome?_eq_none_iff, validate_eq]
  cases p.nodes.findSome? fault? <;> simp [answer]

/-- The first flawed node is the error. -/
theorem validate_eq_error {p : Policy} {fault : Fault} : p.validate = .error fault ↔
    ∃ before n after, p.nodes = before ++ n :: after ∧ (∀ m ∈ before, Sound m) ∧
      Flaw n fault := by
  have hfound : p.validate = .error fault ↔ p.nodes.findSome? fault? = some fault := by
    rw [validate_eq]
    cases p.nodes.findSome? fault? <;> simp [answer]
  simp only [hfound, List.findSome?_eq_some_iff, fault?_eq_some_iff_flaw, fault?_eq_none_iff_sound]
  constructor
  · rintro ⟨before, n, after, hsplit, hflaw, hbefore⟩
    exact ⟨before, n, after, hsplit, hbefore, hflaw⟩
  · rintro ⟨before, n, after, hsplit, hbefore, hflaw⟩
    exact ⟨before, n, after, hsplit, hflaw, hbefore⟩

/-! ## Policies that can be met -/

/-- When all members of a valid policy have signed it is at consensus. -/
theorem authorizes_allMembers {p : Policy} (hvalid : p.validate = .ok ()) :
    p.authorizes p.allMembers = .ok true := by
  obtain ⟨coalition, hsub, _, hreached⟩ := exists_coalition hvalid
  exact authorizes_eq_ok.2 ⟨fun _ ha => ha, hreached _ hsub.subset⟩

theorem authorizes_no_one {p : Policy} (hvalid : p.validate = .ok ()) :
    p.authorizes [] = .ok false := by
  rw [authorizes_nil, not_unguarded_of_validate hvalid]

/-- A policy is valid exactly if all of its nodes are sound, and otherwise the first flawed node is
reported, with what is amiss first there. Together the members of a valid policy bring it to
consensus, and it is not there before anyone signed. -/
theorem policy_is_sound_or_first_flaw_is_named (p : Policy) :
    (p.validate = .ok () ↔ ∀ n ∈ p.nodes, Sound n) ∧
      (∀ fault, p.validate = .error fault ↔ ∃ before n after, p.nodes = before ++ n :: after ∧
        (∀ m ∈ before, Sound m) ∧ Flaw n fault) ∧
      (p.validate = .ok () →
        p.authorizes p.allMembers = .ok true ∧ p.authorizes [] = .ok false) := by
  refine ⟨validate_eq_ok, fun fault => validate_eq_error, fun hvalid => ?_⟩
  exact ⟨authorizes_allMembers hvalid, authorizes_no_one hvalid⟩

/-- A group that asks for more than it can be given is reported, not its own group behind it, nor
the group after it. The council is valid and can be met. -/
theorem greedy_group_is_named :
    (node 1 [] [.node 3 [Sample.member 1] [.node 0 [] []], .node 1 [] []]).validate =
        .error (.quorumExceedsCapacity 3 2) ∧
      Sample.council.authorizes Sample.council.allMembers = .ok true ∧
      Sample.council.authorizes [] = .ok false := by
  refine ⟨((policy_is_sound_or_first_flaw_is_named _).2.1 _).2 ?_,
    (policy_is_sound_or_first_flaw_is_named Sample.council).2.2 rfl⟩
  refine ⟨[_], _, _, rfl, ?_, .quorumExceedsCapacity (by decide) (.inl (by decide)) (by decide)⟩
  rw [List.forall_mem_singleton]
  exact ⟨by decide, .inr (List.cons_ne_nil _ _), by decide⟩

end Quorate.Policy
