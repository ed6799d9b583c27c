/-
The nodes of a policy: the policy itself and the nodes of its groups, a node before its groups and
the groups in the order of their list. Everything that is said of a policy at every depth is said of
these: its members are the members of its nodes, in that order.
-/
import Quorate.Proofs.Policy.Tree

namespace Quorate.Policy

mutual

/-- Every node in the tree, a node before its groups. -/
def nodes : Policy → List Policy
  | node q ms gs => node q ms gs :: nodesOf gs

/-- The nodes of all groups of a list. -/
def nodesOf : List Policy → List Policy
  | [] => []
  | g :: gs => nodes g ++ nodesOf gs

end

theorem nodesOf_eq_flatMap (gs : List Policy) : nodesOf gs = gs.flatMap nodes := by
  induction gs with
  | nil => rfl
  | cons g gs ih => rw [nodesOf, ih, List.flatMap_cons]

theorem nodes_node (q : UInt8) (ms : List Address) (gs : List Policy) :
    (node q ms gs).nodes = node q ms gs :: gs.flatMap nodes := by
  rw [nodes, nodesOf_eq_flatMap]

/-- The members are listed node by node. -/
theorem allMembers_eq_flatMap (p : Policy) : p.allMembers = p.nodes.flatMap members := by
  induction p using tree_induction with
  | step q ms gs ih =>
    have hgroups : gs.flatMap allMembers = gs.flatMap fun g => g.nodes.flatMap members :=
      List.flatMap_congr ih
    rw [allMembers_node, nodes_node, List.flatMap_cons, hgroups, List.flatMap_assoc]
    rfl

/-- Someone is known to a policy who is a member of one of its nodes. -/
def Knows (p : Policy) (a : Address) : Prop := ∃ n ∈ p.nodes, a ∈ n.members

theorem mem_allMembers {p : Policy} {a : Address} : a ∈ p.allMembers ↔ p.Knows a := by
  rw [allMembers_eq_flatMap, List.mem_flatMap, Knows]

end Quorate.Policy
