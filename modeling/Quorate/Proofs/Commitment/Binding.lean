/-
Binding: a root stands for one list of leaves. Leaves are put in order before the tree is built, and
order is what makes them unique: siblings that change places at any height leave the root as it is,
and a repeated last digest cannot be told from one that is there twice.
-/
import Quorate.Commitment
import Quorate.Proofs.Merkle.Multiplicity
import Quorate.Proofs.Sorting

namespace Quorate.Commitment

open Merkle (LayersCollide)

/-! ## Order -/

/-- Each leaf is at most the ones behind it. -/
def Ascending (leaves : List Digest) : Prop := leaves.Pairwise fun a b => (compare a b).isLE

theorem ascending_ascending (leaves : List Digest) : Ascending (ascending leaves) :=
  pairwise_mergeSort_key id leaves

/-- The same leaves have only one order. -/
theorem Ascending.eq_of_perm {leaves leaves' : List Digest} (h : Ascending leaves)
    (h' : Ascending leaves') (hperm : leaves.Perm leaves') : leaves = leaves' :=
  eq_of_perm_of_pairwise_key id (fun _ _ _ _ heq => heq) h h' hperm

/-- How leaves were mixed before they are put in order does not matter. -/
theorem ascending_eq_of_perm {leaves leaves' : List Digest} (h : leaves.Perm leaves') :
    ascending leaves = ascending leaves' :=
  mergeSort_key_eq_of_perm id (fun _ _ _ _ heq => heq) h

/-! ## One root, one list -/

/-- Lists of equally many leaves in ascending order that have one root are the same list, unless a
pair of one tree collides with a pair of the same layer of the other. -/
theorem root_binds_ascending_leaves {leaves leaves' : List Digest}
    (hlength : leaves.length = leaves'.length) (hascending : Ascending leaves)
    (hascending' : Ascending leaves')
    (hroot : (Merkle.Tree.ofLeaves leaves).root = (Merkle.Tree.ofLeaves leaves').root) :
    leaves = leaves' ∨
      LayersCollide (Merkle.Tree.ofLeaves leaves).layers (Merkle.Tree.ofLeaves leaves').layers := by
  by_cases hcollide :
      LayersCollide (Merkle.Tree.ofLeaves leaves).layers (Merkle.Tree.ofLeaves leaves').layers
  · exact .inr hcollide
  · left
    obtain ⟨ws, hws, hpos, hperm⟩ :=
      Merkle.exists_weights_of_root_eq leaves hlength hroot hcollide
    have hrefl : ∀ d : Digest, (compare d d).isLE := fun d => by
      have hself : compare d d = .eq := Std.ReflCmp.compare_self
      rw [hself]
      rfl
    -- the counts go by position, so the lists in order are in order with their counts as well
    have hspread : Merkle.spread ws leaves = Merkle.spread ws leaves' :=
      Ascending.eq_of_perm (Merkle.pairwise_spread hrefl hascending)
        (Merkle.pairwise_spread hrefl hascending') hperm
    exact Merkle.eq_of_spread_eq hpos hws hlength hspread

/-- Leaves that were mixed in two ways have one root once they are in order, and are one list. -/
theorem mixed_leaves_have_one_order :
    (Merkle.Tree.ofLeaves (ascending [.ofNat 2, .zero, .ofNat 1])).root =
        (Merkle.Tree.ofLeaves (ascending [.ofNat 1, .ofNat 2, .zero])).root ∧
      (ascending [.ofNat 2, .zero, .ofNat 1] = ascending [.ofNat 1, .ofNat 2, .zero] ∨
        LayersCollide (Merkle.Tree.ofLeaves (ascending [.ofNat 2, .zero, .ofNat 1])).layers
          (Merkle.Tree.ofLeaves (ascending [.ofNat 1, .ofNat 2, .zero])).layers) := by
  have hperm : [Digest.ofNat 2, .zero, .ofNat 1].Perm [.ofNat 1, .ofNat 2, .zero] := by decide
  have hroot : (Merkle.Tree.ofLeaves (ascending [.ofNat 2, .zero, .ofNat 1])).root =
      (Merkle.Tree.ofLeaves (ascending [.ofNat 1, .ofNat 2, .zero])).root := by
    rw [ascending_eq_of_perm hperm]
  have hlength : (ascending [.ofNat 2, .zero, .ofNat 1]).length =
      (ascending [.ofNat 1, .ofNat 2, .zero]).length := by
    rw [ascending_eq_of_perm hperm]
  exact ⟨hroot, root_binds_ascending_leaves hlength (ascending_ascending _)
    (ascending_ascending _) hroot⟩

end Quorate.Commitment
