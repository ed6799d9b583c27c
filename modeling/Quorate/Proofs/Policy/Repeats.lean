/-
Repeats: nothing keeps a policy from listing a member twice. Consensus counts entries of the list,
while each member is to count once. Repeated entries only ever add approvals, and the two counts
come to the same unless they tip a policy that is otherwise short of its quorum.
-/
import Quorate.Policy
import Mathlib.Data.Finset.Card

namespace Quorate.Policy

/-! ## Each member once -/

/-- The number of members who signed, each of them counted once. -/
def distinctSigned (signed members : List Address) : Nat :=
  (members.filter (signed.contains ·)).toFinset.card

mutual

/-- Whether enough members and groups approve when each member counts once. -/
def approvedBy (signed : List Address) : Policy → Bool
  | node q ms gs => q.toNat ≤ distinctSigned signed ms + approving signed gs

/-- The number of groups that approve when each member counts once. -/
def approving (signed : List Address) : List Policy → Nat
  | [] => 0
  | g :: gs => (if approvedBy signed g then 1 else 0) + approving signed gs

end

/-! ## Entries beyond the first -/

/-- The number of entries of members who signed, beyond the first of each. -/
def repeats (signed members : List Address) : Nat :=
  members.countP (signed.contains ·) - distinctSigned signed members

theorem distinctSigned_add_repeats (signed members : List Address) :
    distinctSigned signed members + repeats signed members =
      members.countP (signed.contains ·) := by
  have hle : distinctSigned signed members ≤ members.countP (signed.contains ·) := by
    unfold distinctSigned
    rw [List.countP_eq_length_filter]
    exact List.toFinset_card_le _
  unfold repeats
  omega

/-- A list that names no one twice has no such entries. -/
theorem repeats_of_nodup (signed : List Address) {members : List Address} (h : members.Nodup) :
    repeats signed members = 0 := by
  have hcard : distinctSigned signed members = members.countP (signed.contains ·) := by
    unfold distinctSigned
    rw [List.countP_eq_length_filter]
    exact List.toFinset_card_of_nodup (h.filter _)
  unfold repeats
  omega

/-! ## Tipped policies -/

mutual

/-- Whether a policy is short of its quorum, but by no more than its repeated entries and its tipped
groups make up for. -/
def tipped (signed : List Address) : Policy → Bool
  | node q ms gs =>
    let once := distinctSigned signed ms + approving signed gs
    once < q.toNat && q.toNat ≤ once + (repeats signed ms + tippedGroups signed gs)

def tippedGroups (signed : List Address) : List Policy → Nat
  | [] => 0
  | g :: gs => (if tipped signed g then 1 else 0) + tippedGroups signed gs

end

theorem not_approvedBy_of_tipped {signed : List Address} :
    ∀ {p : Policy}, p.tipped signed = true → p.approvedBy signed = false
  | node q ms gs, h => by
    simp only [tipped, Bool.and_eq_true, decide_eq_true_eq] at h
    simp only [approvedBy, decide_eq_false_iff_not]
    omega

mutual

/-- A policy is at consensus when it approves with each member counted once, or else is tipped. -/
theorem atConsensus_eq (signed : List Address) :
    ∀ p : Policy, p.atConsensus signed = (p.approvedBy signed || p.tipped signed)
  | node q ms gs => by
    have hcount := distinctSigned_add_repeats signed ms
    have hgroups := approvals_eq signed gs
    rw [Bool.eq_iff_iff]
    simp only [atConsensus, approvedBy, tipped, Bool.or_eq_true, Bool.and_eq_true,
      decide_eq_true_eq]
    omega

theorem approvals_eq (signed : List Address) :
    ∀ gs : List Policy, approvals signed gs = approving signed gs + tippedGroups signed gs
  | [] => rfl
  | g :: gs => by
    have hrest := approvals_eq signed gs
    simp only [approvals, approving, tippedGroups, atConsensus_eq signed g]
    -- a tipped group does not approve, so no group is counted on both sides
    cases htipped : tipped signed g with
    | false =>
      rw [Bool.or_false]
      simp
      omega
    | true =>
      rw [not_approvedBy_of_tipped htipped]
      simp
      omega

end

mutual

/-- Whether no node of the policy lists a member twice. -/
def unrepeated : Policy → Bool
  | node _ ms gs => decide ms.Nodup && unrepeatedAll gs

/-- Whether no node of the groups lists a member twice. -/
def unrepeatedAll : List Policy → Bool
  | [] => true
  | g :: gs => unrepeated g && unrepeatedAll gs

end

mutual

theorem tipped_of_unrepeated (signed : List Address) :
    ∀ {p : Policy}, p.unrepeated = true → p.tipped signed = false
  | node q ms gs, h => by
    simp only [unrepeated, Bool.and_eq_true, decide_eq_true_eq] at h
    simp only [tipped, repeats_of_nodup signed h.1, tippedGroups_of_unrepeated signed h.2]
    simp

theorem tippedGroups_of_unrepeated (signed : List Address) :
    ∀ {gs : List Policy}, unrepeatedAll gs = true → tippedGroups signed gs = 0
  | [], _ => rfl
  | g :: gs, h => by
    simp only [unrepeatedAll, Bool.and_eq_true] at h
    simp only [tippedGroups, tipped_of_unrepeated signed h.1, tippedGroups_of_unrepeated signed h.2]
    rfl

end

/-! ## Each member counts once unless a policy is tipped -/

/-- Consensus is what it is with each member counted once, except at a tipped policy. There it is
reached too early, never too late; and where no node lists a member twice, no policy is tipped. -/
theorem members_count_once_unless_tipped (signed : List Address) (p : Policy) :
    (p.atConsensus signed = p.approvedBy signed ↔ p.tipped signed = false) ∧
      (p.approvedBy signed = true → p.atConsensus signed = true) ∧
      (p.unrepeated = true → p.atConsensus signed = p.approvedBy signed) := by
  have hexact : p.atConsensus signed = p.approvedBy signed ↔ p.tipped signed = false := by
    rw [atConsensus_eq]
    constructor
    · intro heq
      by_contra htipped
      rw [Bool.not_eq_false] at htipped
      rw [not_approvedBy_of_tipped htipped, htipped] at heq
      cases heq
    · intro htipped
      rw [htipped, Bool.or_false]
  refine ⟨hexact, fun happroved => ?_, fun h => hexact.2 (tipped_of_unrepeated signed h)⟩
  rw [atConsensus_eq, happroved, Bool.true_or]

/-- A valid policy that lists one member twice takes the one signature for two approvals. -/
theorem one_signer_approves_twice : ¬ ∀ (p : Policy) (signed : List Address),
    p.validate = .ok () → p.atConsensus signed = p.approvedBy signed := by
  intro h
  have heq := h (node 2 [.zero, .zero] []) [.zero] rfl
  revert heq
  decide

end Quorate.Policy
