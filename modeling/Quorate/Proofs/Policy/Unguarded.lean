/-
Unguarded policies: those at consensus before anyone signed. A policy of quorum zero is one, and so
is any policy that has enough unguarded groups. A valid policy is not, and none of its groups is.
-/
import Quorate.Policy

namespace Quorate.Policy

mutual

/-- Whether unguarded groups alone make up the quorum. -/
def unguarded : Policy → Bool
  | node q _ gs => q.toNat ≤ unguardedGroups gs

def unguardedGroups : List Policy → Nat
  | [] => 0
  | g :: gs => (if unguarded g then 1 else 0) + unguardedGroups gs

end

mutual

/-- Without signers no member approves, and consensus is a matter of the groups. -/
theorem atConsensus_nil : ∀ p : Policy, p.atConsensus [] = p.unguarded
  | node q ms gs => by
    have hmembers : ms.countP (fun a => ([] : List Address).contains a) = 0 :=
      List.countP_eq_zero.2 fun a _ => by simp
    unfold atConsensus unguarded
    rw [hmembers, Nat.zero_add, approvals_nil gs]

theorem approvals_nil : ∀ gs : List Policy, approvals [] gs = unguardedGroups gs
  | [] => rfl
  | g :: gs => by
    unfold approvals unguardedGroups
    rw [atConsensus_nil g, approvals_nil gs]

end

/-- Where no one signed there is no stranger among the signers. -/
theorem authorizes_nil (p : Policy) : p.authorizes [] = .ok p.unguarded := by
  unfold authorizes
  rw [List.find?_nil, atConsensus_nil]

/-! ## Valid policies -/

mutual

theorem not_unguarded_of_validate : ∀ {p : Policy}, p.validate = .ok () → p.unguarded = false
  | node q ms gs, h => by
    unfold validate at h
    split at h
    · cases h
    · rename_i hfault
      have hq : q ≠ 0 := by
        rintro rfl
        cases hfault
      have hpos : q.toNat ≠ 0 := fun hzero => hq (UInt8.toNat_inj.1 hzero)
      unfold unguarded
      rw [unguardedGroups_of_validateAll h, decide_eq_false_iff_not]
      omega

theorem unguardedGroups_of_validateAll :
    ∀ {gs : List Policy}, validateAll gs = .ok () → unguardedGroups gs = 0
  | [], _ => rfl
  | g :: gs, h => by
    unfold validateAll at h
    split at h
    · cases h
    · rename_i hg
      unfold unguardedGroups
      rw [not_unguarded_of_validate hg, unguardedGroups_of_validateAll h]
      rfl

end

end Quorate.Policy
