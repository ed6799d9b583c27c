/-
Pairs: a layer taken two by two. Each digest of the row above joins one pair, and nothing but a
collision can make two different pairs join to one digest. That collisions are hard to find is not
assumed anywhere; where a statement needs it, the colliding pairs are the alternative.
-/
import Quorate.Proofs.Merkle.Inclusion
import Mathlib.Data.Sym.Sym2

namespace Quorate.Merkle

/-- Two digests are a pair of a layer: they stand side by side, the first at an even position. -/
def Paired (layer : List Digest) (a b : Digest) : Prop :=
  ∃ j, layer[2 * j]? = some a ∧ layer[2 * j + 1]? = some b

/-- Two pairs collide: they differ, whichever way round they are read, and join to one digest. -/
structure Collide (a b a' b' : Digest) : Prop where
  differ : s(a, b) ≠ s(a', b')
  joined : join a b = join a' b'

/-! ## The pairs of a layer -/

/-- The pairs of a layer in their order. -/
def pairs : List Digest → List (Digest × Digest)
  | a :: b :: rest => (a, b) :: pairs rest
  | _ => []

def both (p : Digest × Digest) : List Digest := [p.1, p.2]

theorem mem_pairs {a b : Digest} : ∀ {layer : List Digest}, (a, b) ∈ pairs layer ↔ Paired layer a b
  | [] => by simp [pairs, Paired]
  | [_] => by
    simp only [pairs, Paired, List.not_mem_nil, false_iff]
    rintro ⟨j, _, h⟩
    simp at h
  | x :: y :: rest => by
    rw [pairs, List.mem_cons, mem_pairs]
    constructor
    · rintro (h | ⟨j, ha, hb⟩)
      · cases h
        exact ⟨0, rfl, rfl⟩
      · exact ⟨j + 1, ha, hb⟩
    · rintro ⟨j, ha, hb⟩
      cases j with
      | zero =>
        cases ha
        cases hb
        exact .inl rfl
      | succ j => exact .inr ⟨j, ha, hb⟩

theorem map_join_pairs : ∀ layer : List Digest,
    (pairs layer).map (fun p => join p.1 p.2) = parents layer
  | [] => rfl
  | [_] => rfl
  | a :: b :: rest => by rw [pairs, parents, List.map_cons, map_join_pairs rest]

theorem flatMap_both_pairs : ∀ {layer : List Digest}, layer.length % 2 = 0 →
    (pairs layer).flatMap both = layer
  | [], _ => rfl
  | [_], h => by cases h
  | a :: b :: rest, h => by
    have hrest : rest.length % 2 = 0 := by
      rw [List.length_cons, List.length_cons] at h
      omega
    rw [pairs, List.flatMap_cons, flatMap_both_pairs hrest]
    rfl

theorem exists_paired_of_mem_parents {d : Digest} {layer : List Digest} (h : d ∈ parents layer) :
    ∃ a b, Paired layer a b ∧ join a b = d := by
  rw [← map_join_pairs] at h
  obtain ⟨⟨a, b⟩, hmem, rfl⟩ := List.mem_map.1 h
  exact ⟨a, b, mem_pairs.1 hmem, rfl⟩

/-- What joins to a digest of the row above is one of its pairs, or collides with one. -/
theorem mem_or_collide {layer : List Digest} {d s : Digest} (h : join d s ∈ parents layer) :
    d ∈ layer ∨ ∃ a b, Paired layer a b ∧ Collide d s a b := by
  obtain ⟨a, b, hpaired, hjoin⟩ := exists_paired_of_mem_parents h
  by_cases hsame : s(d, s) = s(a, b)
  · obtain ⟨j, ha, hb⟩ := hpaired
    rcases Sym2.eq_iff.1 hsame with ⟨rfl, _⟩ | ⟨rfl, _⟩
    · exact .inl (List.mem_of_getElem? ha)
    · exact .inl (List.mem_of_getElem? hb)
  · exact .inr ⟨a, b, hpaired, hsame, hjoin.symm⟩

/-! ## The climb, layer by layer -/

theorem layers_climb (a b : Digest) (rest : List Digest) :
    (climb (a :: b :: rest)).1 =
      evened (a :: b :: rest) :: (climb (parents (evened (a :: b :: rest)))).1 := by
  rw [climb]

theorem root_climb (a b : Digest) (rest : List Digest) :
    (climb (a :: b :: rest)).2 = (climb (parents (evened (a :: b :: rest)))).2 := by
  rw [climb]

theorem climb_three (a b c : Digest) :
    climb [a, b, c] = ([[a, b, c, c], [join a b, join c c]], join (join a b) (join c c)) := by
  simp [climb, evened, parents]

end Quorate.Merkle
