/-
Policies as trees: one induction, in which a property is known of every group of a policy, and what
the definitions that recurse through lists of groups say of such a list as a whole.
-/
import Quorate.Policy
import Mathlib.Data.List.Basic

namespace Quorate.Policy

/-! ## Induction -/

mutual

/-- A property holds of all policies if it holds of a policy whenever it holds of its groups. -/
theorem tree_induction {P : Policy → Prop}
    (step : ∀ q ms gs, (∀ g ∈ gs, P g) → P (node q ms gs)) : ∀ p, P p
  | node q ms gs => step q ms gs (tree_induction_groups step gs)

theorem tree_induction_groups {P : Policy → Prop}
    (step : ∀ q ms gs, (∀ g ∈ gs, P g) → P (node q ms gs)) : ∀ gs : List Policy, ∀ g ∈ gs, P g
  | [] => List.forall_mem_nil _
  | g :: gs =>
    List.forall_mem_cons.2 ⟨tree_induction step g, tree_induction_groups step gs⟩

end

/-! ## Lists of groups -/

theorem approvals_eq_countP (signed : List Address) :
    ∀ gs : List Policy, approvals signed gs = gs.countP (atConsensus signed)
  | [] => rfl
  | g :: gs => by
    rw [approvals, approvals_eq_countP signed gs, List.countP_cons, Nat.add_comm]

theorem allMembersOf_eq_flatMap : ∀ gs : List Policy, allMembersOf gs = gs.flatMap allMembers
  | [] => rfl
  | g :: gs => by rw [allMembersOf, allMembersOf_eq_flatMap gs, List.flatMap_cons]

theorem validateAll_eq_ok :
    ∀ {gs : List Policy}, validateAll gs = .ok () ↔ ∀ g ∈ gs, g.validate = .ok ()
  | [] => by simp [validateAll]
  | g :: gs => by
    rw [List.forall_mem_cons, ← validateAll_eq_ok, validateAll]
    cases g.validate with
    | error fault => simp
    | ok u => simp

/-! ## Nodes -/

theorem atConsensus_node {signed : List Address} {q : UInt8} {ms : List Address}
    {gs : List Policy} : (node q ms gs).atConsensus signed = true ↔
      q.toNat ≤ ms.countP (signed.contains ·) + gs.countP (atConsensus signed) := by
  rw [atConsensus, approvals_eq_countP, decide_eq_true_eq]

theorem allMembers_node (q : UInt8) (ms : List Address) (gs : List Policy) :
    (node q ms gs).allMembers = ms ++ gs.flatMap allMembers := by
  rw [allMembers, allMembersOf_eq_flatMap]

theorem quorum_eq_zero {p : Policy} : p.quorum = 0 ↔ p.quorum.toNat = 0 := UInt8.toNat_inj.symm

theorem fault?_eq_none {p : Policy} :
    p.fault? = none ↔ 0 < p.quorum.toNat ∧ p.quorum.toNat ≤ p.capacity := by
  simp only [fault?, quorum_eq_zero]
  split
  · simp only [reduceCtorEq, false_iff]
    omega
  · split
    · simp only [reduceCtorEq, false_iff]
      omega
    · simp only [ite_eq_right_iff, reduceCtorEq, imp_false]
      omega

/-- A policy is valid when at each node the quorum is positive and can be reached. -/
theorem validate_node_eq_ok {q : UInt8} {ms : List Address} {gs : List Policy} :
    (node q ms gs).validate = .ok () ↔
      0 < q.toNat ∧ q.toNat ≤ ms.length + gs.length ∧ ∀ g ∈ gs, g.validate = .ok () := by
  have hfault : (node q ms gs).fault? = none ↔ 0 < q.toNat ∧ q.toNat ≤ ms.length + gs.length :=
    fault?_eq_none
  rw [← validateAll_eq_ok, ← and_assoc, ← hfault, validate]
  cases (node q ms gs).fault? with
  | some fault => simp
  | none => simp

end Quorate.Policy
