/-
Merkle trees over an ordered list of digests. Two digests are joined without regard to their order,
a layer of odd length repeats its last digest, and proofs are found by content: the siblings on the
way from a digest up to the root.
-/
import Quorate.Hash.Keccak
import Quorate.Table

namespace Quorate.Merkle

/-- Why a tree gives no proof. -/
inductive Fault where
  | notFound (digest : Digest)
  | noLayers
  deriving DecidableEq

def Fault.message : Fault → String
  | .notFound digest => s!"merkle tree does not contain hash: {digest}"
  | .noLayers => "no layers in the Merkle tree"

/-- The digest of a pair: the lesser of the two is hashed first, so order does not matter. -/
def join (a b : Digest) : Digest :=
  if compare a b = .lt then keccak256 (a.bytes ++ b.bytes) else keccak256 (b.bytes ++ a.bytes)

/-- A layer of even length: an odd one repeats its last digest. -/
def evened (layer : List Digest) : List Digest :=
  if layer.length % 2 = 1 then layer ++ layer.getLast?.toList else layer

/-- The digests of adjacent pairs. -/
def parents : List Digest → List Digest
  | a :: b :: rest => join a b :: parents rest
  | _ => []

theorem length_evened (layer : List Digest) :
    (evened layer).length = layer.length + layer.length % 2 := by
  unfold evened
  split
  · rename_i h
    cases layer with
    | nil => simp at h
    | cons d rest => simp [List.getLast?_cons] at h ⊢; omega
  · omega

theorem length_parents : ∀ layer : List Digest, (parents layer).length = layer.length / 2
  | [] => rfl
  | [_] => by simp [parents]
  | _ :: _ :: rest => by
    simp only [parents, List.length_cons, length_parents rest]
    omega

/-- The stored layers above and including a row of digests, and the root. A row of one digest is the
root itself and is not stored; the root of nothing is the zero digest. -/
def climb : List Digest → List (List Digest) × Digest
  | [] => ([], .zero)
  | [d] => ([], d)
  | a :: b :: rest =>
    let layer := evened (a :: b :: rest)
    let above := climb (parents layer)
    (layer :: above.1, above.2)
termination_by row => row.length
decreasing_by
  rw [length_parents, length_evened]
  simp only [List.length_cons]
  omega

/-- A tree: its root and its layers, leaves first. -/
structure Tree where
  root : Digest
  layers : List (List Digest)
  deriving DecidableEq

namespace Tree

def ofLeaves (leaves : List Digest) : Tree :=
  let (layers, root) := climb leaves
  ⟨root, layers⟩

end Tree

/-- The other digest of the first pair that holds the given one. -/
def sibling? (d : Digest) : List Digest → Option Digest
  | a :: b :: rest => if a = d then some b else if b = d then some a else sibling? d rest
  | _ => none

/-- The siblings on the way up through the given layers. -/
def path : List (List Digest) → Digest → Except Fault (List Digest)
  | [], _ => .ok []
  | layer :: above, d =>
    match sibling? d layer with
    | none => .error (.notFound d)
    | some s => (s :: ·) <$> path above (join d s)

/-- The proof of a digest. A tree without layers proves nothing. -/
def Tree.proof (t : Tree) (d : Digest) : Except Fault (List Digest) :=
  if t.layers.isEmpty then .error (.notFound d) else path t.layers d

def Tree.proofs (t : Tree) : Except Fault (Table Digest (List Digest)) :=
  match t.layers with
  | [] => .error .noLayers
  | leaves :: _ => leaves.foldlM (fun found d => found.insert d <$> t.proof d) ∅

/-- The root that a proof leads to from a leaf. -/
def recombine (leaf : Digest) (proof : List Digest) : Digest := proof.foldl join leaf

/-- Whether a proof leads from a leaf to the root. -/
def verify (root leaf : Digest) (proof : List Digest) : Bool := recombine leaf proof == root

end Quorate.Merkle
