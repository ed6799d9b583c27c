/-
Reorderings: policies that differ only in the order of members and groups, at any depth. Two
policies are the same up to order exactly when one is a reordering of the other. Groups are matched
greedily, and yet no choice is ever regretted, because reordering is an equivalence: a group that
was taken by one can stand in for the one that it should have been left to. Consensus and the known
signers do not see the difference.
-/
import Quorate.Proofs.Policy.Tree
import Quorate.Proofs.Sample
import Mathlib.Data.List.Forall2
import Mathlib.Data.List.Perm.Subperm

namespace Quorate.Policy

/-- A reordering of a policy: members in another order, and groups paired one to one with
reorderings of them. -/
inductive Reordering : Policy → Policy → Prop
  | node {q : UInt8} {ms ms' : List Address} {gs gs' paired : List Policy} :
      ms.Perm ms' → List.Forall₂ Reordering gs paired → paired.Perm gs' →
      Reordering (.node q ms gs) (.node q ms' gs')

namespace Reordering

/-! ## An equivalence -/

theorem forall₂_trans {R S T : Policy → Policy → Prop} (h : ∀ x y z, R x y → S y z → T x z) :
    ∀ {l m n : List Policy}, List.Forall₂ R l m → List.Forall₂ S m n → List.Forall₂ T l n
  | [], _, _, .nil, .nil => .nil
  | _ :: _, _, _, .cons hxy hl, .cons hyz hm => .cons (h _ _ _ hxy hyz) (forall₂_trans h hl hm)

/-- What is known of each group of a list is known of the first of each pair. -/
theorem forall₂_and {P : Policy → Prop} {gs paired : List Policy} (h : ∀ g ∈ gs, P g)
    (hpair : List.Forall₂ Reordering gs paired) :
    List.Forall₂ (fun g x => P g ∧ Reordering g x) gs paired :=
  (List.forall₂_and_left gs paired).2 ⟨h, hpair⟩

theorem refl (p : Policy) : Reordering p p := by
  induction p using tree_induction with
  | step q ms gs ih => exact .node (.refl ms) (List.forall₂_same.2 ih) (.refl gs)

theorem symm {p p' : Policy} (h : Reordering p p') : Reordering p' p := by
  induction p using tree_induction generalizing p' with
  | step q ms gs ih =>
    cases h with
    | node hms hpair hperm =>
      have hback : List.Forall₂ Reordering _ gs :=
        ((forall₂_and ih hpair).imp fun _ _ h => h.1 h.2).flip
      obtain ⟨back, hpair', hperm'⟩ := List.perm_comp_forall₂ hperm.symm hback
      exact .node hms.symm hpair' hperm'

theorem trans {p p' p'' : Policy} (h : Reordering p p') (h' : Reordering p' p'') :
    Reordering p p'' := by
  induction p using tree_induction generalizing p' p'' with
  | step q ms gs ih =>
    cases h with
    | node hms hpair hperm =>
      cases h' with
      | node hms' hpair' hperm' =>
        obtain ⟨onward, honward, hperm''⟩ := List.perm_comp_forall₂ hperm hpair'
        have hpair'' : List.Forall₂ Reordering gs onward :=
          forall₂_trans (fun _ _ _ h h' => h.1 h.2 h') (forall₂_and ih hpair) honward
        exact .node (hms.trans hms') hpair'' (hperm''.trans hperm')

/-! ## What does not depend on order -/

theorem atConsensus_eq {p p' : Policy} (h : Reordering p p') (signed : List Address) :
    p.atConsensus signed = p'.atConsensus signed := by
  induction p using tree_induction generalizing p' with
  | step q ms gs ih =>
    cases h with
    | node hms hpair hperm =>
      rename_i paired
      have hgroups : gs.map (atConsensus signed) = paired.map (atConsensus signed) := by
        rw [← List.forall₂_eq_eq_eq, List.forall₂_map_left_iff, List.forall₂_map_right_iff]
        exact (forall₂_and ih hpair).imp fun _ _ h => h.1 h.2
      have hcount : gs.countP (atConsensus signed) = paired.countP (atConsensus signed) := by
        simpa only [List.countP_map, Function.id_comp] using congrArg (List.countP id) hgroups
      rw [Bool.eq_iff_iff, atConsensus_node, atConsensus_node, hms.countP_eq, hcount,
        hperm.countP_eq]

theorem allMembers_perm {p p' : Policy} (h : Reordering p p') :
    p.allMembers.Perm p'.allMembers := by
  induction p using tree_induction generalizing p' with
  | step q ms gs ih =>
    cases h with
    | node hms hpair hperm =>
      rename_i paired
      have hgroups : (gs.flatMap allMembers).Perm (paired.flatMap allMembers) := by
        rw [List.flatMap_def, List.flatMap_def]
        refine List.Perm.flatten_congr ?_
        rw [List.forall₂_map_left_iff, List.forall₂_map_right_iff]
        exact (forall₂_and ih hpair).imp fun _ _ h => h.1 h.2
      rw [allMembers_node, allMembers_node]
      exact hms.append (hgroups.trans (hperm.flatMap_right _))

/-- Policies that differ only in order give one answer on the same signers, and the same stranger is
the first. -/
theorem authorizes_eq {p p' : Policy} (h : Reordering p p') (signed : List Address) :
    p.authorizes signed = p'.authorizes signed := by
  have hknown : ∀ a, p.allMembers.contains a = p'.allMembers.contains a := by
    intro a
    rw [Bool.eq_iff_iff, List.contains_iff_mem, List.contains_iff_mem]
    exact h.allMembers_perm.mem_iff
  unfold authorizes
  simp only [hknown, h.atConsensus_eq signed]

end Reordering

/-! ## Matching -/

open Reordering in
/-- A group that was taken does not need to be given back: if the rest of the groups found partners
beside `x`, they still find them when `y`, which is like `x`, was taken in its place. -/
theorem exists_paired_of_taken {gs paired rest : List Policy} {x y : Policy} (hyx : Reordering y x)
    (hpair : List.Forall₂ Reordering gs paired) (hsub : (x :: paired).Subperm (y :: rest)) :
    ∃ paired', List.Forall₂ Reordering gs paired' ∧ paired'.Subperm rest := by
  obtain ⟨chosen, hchosen, hsub⟩ := hsub
  cases hsub with
  | cons _ hsub =>
    -- `y` was not needed at all
    exact ⟨paired, hpair, (List.subperm_cons_self.trans hchosen.symm.subperm).trans hsub.subperm⟩
  | cons_cons _ hsub =>
    rename_i chosen
    rcases List.mem_cons.1 (hchosen.subset (List.mem_cons_self ..)) with rfl | hy
    · exact ⟨paired, hpair, hchosen.cons_inv.symm.subperm.trans hsub.subperm⟩
    · -- the partner of `y` goes to `x`
      obtain ⟨before, after, rfl⟩ := List.append_of_mem hy
      have hswap : List.Forall₂ Reordering (y :: (before ++ after)) (x :: (before ++ after)) :=
        .cons hyx (List.forall₂_same.2 fun g _ => refl g)
      obtain ⟨paired', hpair', hperm⟩ := List.perm_comp_forall₂ List.perm_middle hswap
      have hchosen' : (x :: (before ++ after)).Perm chosen := by
        refine (List.Perm.cons_inv (a := y) ?_).symm
        exact hchosen.trans ((List.perm_middle.cons x).trans (.swap y x _))
      exact ⟨paired', forall₂_trans (fun _ _ _ h h' => h.trans h') hpair hpair',
        (hperm.trans hchosen').subperm.trans hsub.subperm⟩

/-- Groups find matches of their own in a pool exactly when some part of the pool pairs off with
them. -/
theorem matchAll_iff : ∀ {gs : List Policy},
    (∀ g ∈ gs, ∀ x, g.sameAs x = true ↔ Reordering g x) → ∀ {pool : List Policy},
      matchAll gs pool = true ↔
        ∃ paired, List.Forall₂ Reordering gs paired ∧ paired.Subperm pool
  | [], _, pool => by
    simp only [matchAll, true_iff]
    exact ⟨[], .nil, List.nil_subperm⟩
  | g :: gs, hsame, pool => by
    obtain ⟨hg, hgs⟩ := List.forall_mem_cons.1 hsame
    rw [matchAll]
    split
    · rename_i i hfind
      obtain ⟨hi, hmatch, _⟩ := List.findIdx?_eq_some_iff_getElem.1 hfind
      rw [hg] at hmatch
      have hpool := List.getElem_cons_eraseIdx_perm hi
      rw [matchAll_iff hgs]
      constructor
      · rintro ⟨paired, hpair, hsub⟩
        exact ⟨pool[i] :: paired, .cons hmatch hpair,
          ((List.subperm_cons _).2 hsub).trans hpool.subperm⟩
      · rintro ⟨_, hall, hsub⟩
        obtain ⟨x, paired, hx, hpair, rfl⟩ := List.forall₂_cons_left_iff.1 hall
        exact exists_paired_of_taken (hmatch.symm.trans hx) hpair
          (hsub.trans hpool.symm.subperm)
    · rename_i hfind
      simp only [Bool.false_eq_true, false_iff]
      rintro ⟨_, hall, hsub⟩
      obtain ⟨x, paired, hx, _, rfl⟩ := List.forall₂_cons_left_iff.1 hall
      have hnone := List.findIdx?_eq_none_iff.1 hfind x (hsub.subset (List.mem_cons_self ..))
      rw [(hg x).2 hx] at hnone
      cases hnone

/-- Two policies are the same up to order exactly when one is a reordering of the other. -/
theorem sameAs_iff {p p' : Policy} : p.sameAs p' = true ↔ Reordering p p' := by
  induction p using tree_induction generalizing p' with
  | step q ms gs ih =>
    obtain ⟨q', ms', gs'⟩ := p'
    simp only [sameAs, quorum, members, groups, Bool.and_eq_true, beq_iff_eq, List.isPerm_iff,
      matchAll_iff fun g hg x => ih g hg]
    constructor
    · rintro ⟨⟨⟨rfl, hms⟩, hlength⟩, paired, hpair, hsub⟩
      have hle : gs'.length ≤ paired.length :=
        Nat.le_of_eq (hlength.symm.trans hpair.length_eq)
      exact .node hms hpair (hsub.perm_of_length_le hle)
    · rintro ⟨hms, hpair, hperm⟩
      exact ⟨⟨⟨rfl, hms⟩, hpair.length_eq.trans hperm.length_eq⟩, _, hpair, hperm.subperm⟩

/-- How the pool is kept does not matter: the gap that a taken group leaves may be closed by moving
up the groups behind it or by putting the last one there. -/
theorem matchAll_eq_of_perm {gs pool pool' : List Policy} (h : pool.Perm pool') :
    matchAll gs pool = matchAll gs pool' := by
  rw [Bool.eq_iff_iff, matchAll_iff fun _ _ _ => sameAs_iff, matchAll_iff fun _ _ _ => sameAs_iff]
  constructor
  · rintro ⟨paired, hpair, hsub⟩
    exact ⟨paired, hpair, hsub.trans h.subperm⟩
  · rintro ⟨paired, hpair, hsub⟩
    exact ⟨paired, hpair, hsub.trans h.symm.subperm⟩

/-- A group may take whichever match it finds: the rest of the groups find matches in what is left,
or do not, all the same. -/
theorem matchAll_cons_of_taken {g x : Policy} {gs pool rest : List Policy}
    (hmatch : g.sameAs x = true) (hpool : pool.Perm (x :: rest)) :
    matchAll (g :: gs) pool = matchAll gs rest := by
  rw [matchAll_eq_of_perm hpool, matchAll, List.findIdx?_cons, if_pos hmatch]
  rfl

/-! ## Being the same up to order -/

theorem sameAs_equivalence : Equivalence fun p p' : Policy => p.sameAs p' = true where
  refl p := sameAs_iff.2 (.refl p)
  symm h := sameAs_iff.2 (sameAs_iff.1 h).symm
  trans h h' := sameAs_iff.2 ((sameAs_iff.1 h).trans (sameAs_iff.1 h'))

/-- One policy is the same as another exactly if that is a reordering of it, so being the same is an
equivalence. It comes to this although each group takes the first match in the pool: any other
match would have done, and so would any order of what is left. -/
theorem sameness_is_reordering :
    (∀ p p' : Policy, p.sameAs p' = true ↔ Reordering p p') ∧
      (Equivalence fun p p' : Policy => p.sameAs p' = true) ∧
      ∀ (g x : Policy) (gs pool rest : List Policy), g.sameAs x = true → pool.Perm (x :: rest) →
        matchAll (g :: gs) pool = matchAll gs rest :=
  ⟨fun _ _ => sameAs_iff, sameAs_equivalence, fun _ _ _ _ _ => matchAll_cons_of_taken⟩

/-- A council that sits in another order is a reordering of the council. Groups are paired one to
one: where one group is there twice it does not do to have it once and another one twice. -/
theorem groups_are_paired_one_to_one :
    Reordering Sample.council Sample.reseated ∧
      ¬ Reordering (.node 1 [] [.node 1 [Sample.member 1] [], .node 1 [Sample.member 1] [],
          .node 1 [Sample.member 2] []])
        (.node 1 [] [.node 1 [Sample.member 1] [], .node 1 [Sample.member 2] [],
          .node 1 [Sample.member 2] []]) := by
  have hsame := sameness_is_reordering.1
  constructor
  · exact (hsame _ _).1 (by decide)
  · rw [← hsame]
    decide

end Quorate.Policy
