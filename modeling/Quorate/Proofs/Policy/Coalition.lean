/-
Coalitions: how many signers it takes at the least to bring a policy to consensus. A policy needs
as many as the cheapest of its members and groups that make up the quorum, where a member costs one
signer and a group what it needs itself. Fewer never do, since no signer counts in two places if the
policy names no one twice; and so many suffice, since the cheapest can be picked at every node.
-/
import Quorate.Proofs.Policy.Repeats
import Quorate.Proofs.Policy.Tree
import Quorate.Proofs.Sample
import Mathlib.Algebra.GroupWithZero.Nat
import Mathlib.Algebra.Order.BigOperators.Group.List
import Mathlib.Algebra.Order.Group.Nat
import Mathlib.Data.List.Flatten
import Mathlib.Data.List.Sort

namespace Quorate.Policy

/-! ## The least of some weights -/

/-- What the `n` least of some weights come to. -/
def cheapest (n : Nat) (weights : List Nat) : Nat :=
  ((weights.insertionSort (· ≤ ·)).take n).sum

/-- The first numbers of an ascending list come to no more than as many others of it. -/
theorem sum_take_le : ∀ {l chosen : List Nat} {n : Nat}, l.Pairwise (· ≤ ·) → chosen.Sublist l →
    n ≤ chosen.length → (l.take n).sum ≤ chosen.sum
  | _, _, 0, _, _, _ => by simp
  | [], _, n + 1, _, _, _ => by simp
  | a :: l, chosen, n + 1, hsorted, hsub, hn => by
    obtain ⟨hle, hsorted⟩ := List.pairwise_cons.1 hsorted
    obtain ⟨b, rest, rfl⟩ := List.exists_cons_of_length_pos (Nat.lt_of_lt_of_le n.succ_pos hn)
    have hrest : n ≤ rest.length := Nat.le_of_succ_le_succ hn
    rw [List.take_succ_cons, List.sum_cons, List.sum_cons]
    cases hsub with
    | cons _ hsub =>
      have hab : a ≤ b := hle b (hsub.subset (List.mem_cons_self ..))
      have := sum_take_le hsorted ((List.sublist_cons_self b rest).trans hsub) hrest
      omega
    | cons_cons _ hsub =>
      have := sum_take_le hsorted hsub hrest
      omega

theorem cheapest_le_sum {n : Nat} {weights chosen : List Nat} (h : chosen.Sublist weights)
    (hn : n ≤ chosen.length) : cheapest n weights ≤ chosen.sum := by
  obtain ⟨sorted, hperm, hsub⟩ :=
    h.subperm.trans (List.perm_insertionSort (· ≤ ·) weights).symm.subperm
  rw [← hperm.sum_eq]
  rw [← hperm.length_eq] at hn
  exact sum_take_le (List.pairwise_insertionSort _ _) hsub hn

/-- The least weights can be picked out of the list. -/
theorem exists_cheapest {n : Nat} {weights : List Nat} (hn : n ≤ weights.length) :
    ∃ chosen : List Nat, chosen.Sublist weights ∧ chosen.length = n ∧
      chosen.sum = cheapest n weights := by
  have hsort := List.perm_insertionSort (· ≤ ·) weights
  obtain ⟨chosen, hperm, hsub⟩ := (List.take_sublist n _).subperm.trans hsort.subperm
  refine ⟨chosen, hsub, ?_, hperm.sum_eq⟩
  rw [hperm.length_eq, List.length_take, hsort.length_eq]
  omega

/-! ## Need -/

mutual

/-- How many signers a policy takes at the least: as many as its cheapest members and groups that
make up the quorum. -/
def need : Policy → Nat
  | node q ms gs => cheapest q.toNat (List.replicate ms.length 1 ++ needs gs)

/-- How many signers each group of a list takes at the least. -/
def needs : List Policy → List Nat
  | [] => []
  | g :: gs => need g :: needs gs

end

theorem needs_eq_map (gs : List Policy) : needs gs = gs.map need := by
  induction gs with
  | nil => rfl
  | cons g gs ih => rw [needs, ih, List.map_cons]

/-- What the members and groups at the top of a policy cost: a member one signer, a group what it
needs. -/
def costs (ms : List Address) (gs : List Policy) : List Nat :=
  List.replicate ms.length 1 ++ gs.map need

theorem length_costs (ms : List Address) (gs : List Policy) :
    (costs ms gs).length = ms.length + gs.length := by
  simp [costs]

theorem need_node (q : UInt8) (ms : List Address) (gs : List Policy) :
    (node q ms gs).need = cheapest q.toNat (costs ms gs) := by
  rw [need, needs_eq_map, costs]

/-- A valid policy needs a signer at least for each approval. -/
theorem quorum_le_need {p : Policy} (hvalid : p.validate = .ok ()) :
    p.quorum.toNat ≤ p.need := by
  induction p using tree_induction with
  | step q ms gs ih =>
    obtain ⟨_, hreach, hgroups⟩ := validate_node_eq_ok.1 hvalid
    rw [← length_costs] at hreach
    obtain ⟨chosen, hsub, hlength, hsum⟩ := exists_cheapest hreach
    rw [need_node, ← hsum, quorum, ← hlength]
    refine List.length_le_sum_of_one_le chosen fun cost hmem => ?_
    rcases List.mem_append.1 (hsub.subset hmem) with hmem | hmem
    · exact Nat.le_of_eq (List.eq_of_mem_replicate hmem).symm
    · obtain ⟨⟨q', ms', gs'⟩, hg, rfl⟩ := List.mem_map.1 hmem
      have hpos := (validate_node_eq_ok.1 (hgroups _ hg)).1
      exact Nat.le_trans hpos (ih _ hg (hgroups _ hg))

/-! ## Fewer do not suffice -/

/-- At consensus there are as many entries of members who signed as the policy needs. The members
and groups that approve are some of all, so they cost no less than the cheapest. -/
theorem need_le_countP {signed : List Address} {p : Policy} (h : p.atConsensus signed = true) :
    p.need ≤ p.allMembers.countP (signed.contains ·) := by
  induction p using tree_induction with
  | step q ms gs ih =>
    rw [atConsensus_node] at h
    have happroving : (gs.filter (atConsensus signed)).Sublist gs := List.filter_sublist
    have hcost : ((gs.filter (atConsensus signed)).map need).sum ≤
        ((gs.filter (atConsensus signed)).map
          (List.countP (signed.contains ·) ∘ allMembers)).sum := by
      refine List.sum_le_sum fun g hg => ?_
      obtain ⟨hmem, happroves⟩ := List.mem_filter.1 hg
      exact ih g hmem happroves
    calc (node q ms gs).need
        = cheapest q.toNat (costs ms gs) := need_node q ms gs
      _ ≤ (List.replicate (ms.countP (signed.contains ·)) 1 ++
            (gs.filter (atConsensus signed)).map need).sum := by
          refine cheapest_le_sum (.append ?_ (happroving.map need)) ?_
          · exact (List.replicate_sublist_replicate 1).2 List.countP_le_length
          · simpa [List.countP_eq_length_filter] using h
      _ = ms.countP (signed.contains ·) + ((gs.filter (atConsensus signed)).map need).sum := by
          simp
      _ ≤ ms.countP (signed.contains ·) +
            (gs.map (List.countP (signed.contains ·) ∘ allMembers)).sum := by
          have := (happroving.map (List.countP (signed.contains ·) ∘ allMembers)).sum_le_sum
            fun _ _ => Nat.zero_le _
          omega
      _ = (node q ms gs).allMembers.countP (signed.contains ·) := by
          rw [allMembers_node, List.countP_append, List.countP_flatMap]

/-! ## So many suffice -/

/-- Some of the members of a valid policy, as many as it needs, bring it to consensus, whoever else
signs. -/
theorem exists_coalition {p : Policy} (hvalid : p.validate = .ok ()) :
    ∃ coalition, coalition.Sublist p.allMembers ∧ coalition.length = p.need ∧
      ∀ signed, coalition ⊆ signed → p.atConsensus signed = true := by
  induction p using tree_induction with
  | step q ms gs ih =>
    obtain ⟨_, hreach, hgroups⟩ := validate_node_eq_ok.1 hvalid
    choose! within hwithin using fun g (hg : g ∈ gs) => ih g hg (hgroups g hg)
    -- the cheapest are `k` of the members and the groups `picked`
    rw [← length_costs] at hreach
    obtain ⟨chosen, hsub, hlength, hsum⟩ := exists_cheapest hreach
    obtain ⟨ones, rest, rfl, hones, hrest⟩ := List.sublist_append_iff.1 hsub
    obtain ⟨k, hk, rfl⟩ := List.sublist_replicate_iff.1 hones
    obtain ⟨picked, hpicked, rfl⟩ := List.sublist_map_iff.1 hrest
    have hwithin : ∀ g ∈ picked, (within g).Sublist g.allMembers ∧ (within g).length = g.need ∧
        ∀ signed, within g ⊆ signed → g.atConsensus signed = true :=
      fun g hg => hwithin g (hpicked.subset hg)
    refine ⟨ms.take k ++ picked.flatMap within, ?_, ?_, fun signed hsigned => ?_⟩
    · rw [allMembers_node]
      refine (List.take_sublist k ms).append ?_
      exact (List.Sublist.flatMap_right picked fun g hg => (hwithin g hg).1).trans
        (hpicked.flatMap allMembers)
    · have hcost : (picked.map fun g => (within g).length) = picked.map need :=
        List.map_congr_left fun g hg => (hwithin g hg).2.1
      rw [need_node, ← hsum, List.length_append, List.length_flatMap, hcost, List.sum_append,
        List.sum_replicate_nat, List.length_take, Nat.min_eq_left hk, Nat.mul_one]
    · obtain ⟨htaken, hpickedSigned⟩ := List.append_subset.1 hsigned
      have hmembers : k ≤ ms.countP (signed.contains ·) := by
        have hall : (ms.take k).countP (signed.contains ·) = (ms.take k).length :=
          List.countP_eq_length.2 fun a ha => List.contains_iff_mem.2 (htaken ha)
        rw [List.length_take, Nat.min_eq_left hk] at hall
        exact hall ▸ (List.take_sublist k ms).countP_le
      have happroving : picked.length ≤ gs.countP (atConsensus signed) := by
        have hall : picked.countP (atConsensus signed) = picked.length := by
          refine List.countP_eq_length.2 fun g hg => (hwithin g hg).2.2 signed fun a ha => ?_
          exact hpickedSigned (List.mem_flatMap.2 ⟨g, hg, ha⟩)
        exact hall ▸ hpicked.countP_le
      rw [atConsensus_node]
      rw [List.length_append, List.length_replicate, List.length_map] at hlength
      omega

/-! ## The least coalition -/

/-- A valid policy that names no one twice needs a certain number of signers, and no less than its
quorum: whoever brings it to consensus has that many distinct members among them, and some
so many members bring it there. -/
theorem need_is_least_coalition {p : Policy} (hvalid : p.validate = .ok ())
    (hdistinct : p.allMembers.Nodup) :
    (∀ signed, p.atConsensus signed = true → p.need ≤ distinctSigned signed p.allMembers) ∧
      p.quorum.toNat ≤ p.need ∧
      ∃ coalition : List Address, coalition.Nodup ∧ coalition ⊆ p.allMembers ∧
        coalition.length = p.need ∧ p.atConsensus coalition = true := by
  refine ⟨fun signed h => ?_, quorum_le_need hvalid, ?_⟩
  · have hcount := distinctSigned_add_repeats signed p.allMembers
    rw [repeats_of_nodup signed hdistinct, Nat.add_zero] at hcount
    exact hcount ▸ need_le_countP h
  · obtain ⟨coalition, hsub, hlength, hreached⟩ := exists_coalition hvalid
    exact ⟨coalition, hsub.nodup hdistinct, hsub.subset, hlength,
      hreached coalition (List.Subset.refl _)⟩

/-- Of a member and two groups that need two and three signers, a quorum of two takes three. -/
theorem council_needs_three :
    Sample.council.validate = .ok () ∧ Sample.council.allMembers.Nodup ∧
      (∀ signed, Sample.council.atConsensus signed = true →
        3 ≤ distinctSigned signed Sample.council.allMembers) ∧
      ∃ coalition : List Address, coalition.Nodup ∧ coalition ⊆ Sample.council.allMembers ∧
        coalition.length = 3 ∧ Sample.council.atConsensus coalition = true := by
  have hvalid : Sample.council.validate = .ok () := rfl
  have hdistinct : Sample.council.allMembers.Nodup := by decide
  have hneed : Sample.council.need = 3 := rfl
  obtain ⟨hleast, _, hcoalition⟩ := need_is_least_coalition hvalid hdistinct
  rw [hneed] at hleast hcoalition
  exact ⟨hvalid, hdistinct, hleast, hcoalition⟩

end Quorate.Policy
