/-
Inclusion: every digest of the row that a tree is built over has a proof, and the proof leads to the
root. Equal digests do no harm, since a proof is looked up by content: whichever copy is found in a
layer, the digest and the other one of its pair are joined into a digest of the layer above.
-/
import Quorate.Merkle
import Mathlib.Data.List.Basic

namespace Quorate.Merkle

/-! ## Pairs -/

/-- A pair has one digest, whichever side it is read from. -/
theorem join_comm (a b : Digest) : join a b = join b a := by
  unfold join
  have hswap : compare b a = (compare a b).swap := Std.OrientedCmp.eq_swap
  rw [hswap]
  cases h : compare a b with
  | lt => simp
  | gt => simp
  | eq => simp [Std.LawfulEqCmp.eq_of_compare h]

theorem even_length_evened (layer : List Digest) : (evened layer).length % 2 = 0 := by
  rw [length_evened]
  omega

theorem mem_evened {layer : List Digest} {d : Digest} : d ∈ evened layer ↔ d ∈ layer := by
  unfold evened
  split
  · rw [List.mem_append]
    constructor
    · rintro (h | h)
      · exact h
      · exact List.mem_of_getLast? (by simpa using h)
    · exact .inl
  · exact Iff.rfl

/-- In a layer of even length every digest has another one beside it, and what the two join to is in
the layer above. -/
theorem sibling?_of_mem {d : Digest} : ∀ {layer : List Digest}, layer.length % 2 = 0 → d ∈ layer →
    ∃ s, sibling? d layer = some s ∧ join d s ∈ parents layer
  | [], _, h => by cases h
  | [_], heven, _ => by simp at heven
  | a :: b :: rest, heven, h => by
    unfold sibling? parents
    by_cases ha : a = d
    · subst ha
      exact ⟨b, by simp, List.mem_cons_self ..⟩
    · by_cases hb : b = d
      · subst hb
        refine ⟨a, by simp [ha], ?_⟩
        rw [join_comm]
        exact List.mem_cons_self ..
      · have hrest : d ∈ rest := by
          simp only [List.mem_cons] at h
          rcases h with rfl | rfl | h
          · exact absurd rfl ha
          · exact absurd rfl hb
          · exact h
        have heven' : rest.length % 2 = 0 := by
          rw [List.length_cons, List.length_cons] at heven
          omega
        obtain ⟨s, hs, hup⟩ := sibling?_of_mem heven' hrest
        exact ⟨s, by simp [ha, hb, hs], List.mem_cons_of_mem _ hup⟩

/-! ## Paths -/

theorem path_cons {d s : Digest} {layer : List Digest} (above : List (List Digest))
    (h : sibling? d layer = some s) :
    path (layer :: above) d = (s :: ·) <$> path above (join d s) := by
  rw [path, h]

/-- The way up from any digest of a row ends at the root above it. The induction is on the climb:
the pair of a digest is joined into a digest of the next row. -/
theorem path_climb (row : List Digest) {d : Digest} (hd : d ∈ row) :
    ∃ proof, path (climb row).1 d = .ok proof ∧ recombine d proof = (climb row).2 := by
  induction row using climb.induct generalizing d with
  | case1 => cases hd
  | case2 e =>
    rw [List.mem_singleton] at hd
    subst hd
    exact ⟨[], by rw [climb]; rfl, by rw [climb]; rfl⟩
  | case3 a b rest layer =>
    rename_i ih
    obtain ⟨s, hs, hup⟩ := sibling?_of_mem (even_length_evened _) (mem_evened.2 hd)
    obtain ⟨proof, hpath, hroot⟩ := ih hup
    rw [climb]
    refine ⟨s :: proof, ?_, hroot⟩
    rw [path_cons _ hs, hpath]
    rfl

/-! ## Trees -/

/-- A row of two digests or more is stored. -/
theorem layers_ne_nil {leaves : List Digest} (h : 2 ≤ leaves.length) :
    (Tree.ofLeaves leaves).layers ≠ [] := by
  match leaves, h with
  | a :: b :: rest, _ =>
    unfold Tree.ofLeaves
    rw [climb]
    simp

/-- Every leaf of a tree over two leaves or more has a proof that leads to the root. -/
theorem proof_of_mem {leaves : List Digest} (h : 2 ≤ leaves.length) {d : Digest} (hd : d ∈ leaves) :
    ∃ proof, (Tree.ofLeaves leaves).proof d = .ok proof ∧
      verify (Tree.ofLeaves leaves).root d proof = true := by
  obtain ⟨proof, hpath, hroot⟩ := path_climb leaves hd
  refine ⟨proof, ?_, ?_⟩
  · unfold Tree.proof
    rw [if_neg (by simpa using layers_ne_nil h)]
    exact hpath
  · unfold verify
    rw [beq_iff_eq]
    exact hroot

end Quorate.Merkle
