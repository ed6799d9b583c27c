/-
Completeness: which digests have a proof. A tree over two leaves or more proves its leaves and
nothing else, each by a proof as long as the tree is high that leads to the root. A digest without a
proof is named itself: once a leaf is found in the lowest layer, the way up cannot fail, although
each layer is searched anew and another copy of a digest may be found there. The table of all proofs
has the leaves for its keys.
-/
import Quorate.Proofs.Merkle.Pairs
import Quorate.Proofs.Outcome
import Quorate.Proofs.Table
import Mathlib.Data.List.Dedup

namespace Quorate.Merkle

/-! ## Siblings and paths -/

theorem mem_of_sibling? {d s : Digest} : ∀ {layer : List Digest}, sibling? d layer = some s →
    d ∈ layer
  | [], h => by cases h
  | [_], h => by cases h
  | a :: b :: rest, h => by
    unfold sibling? at h
    split at h
    · rename_i ha
      exact ha ▸ List.mem_cons_self ..
    split at h
    · rename_i hb
      exact hb ▸ List.mem_cons_of_mem _ (List.mem_cons_self ..)
    · exact List.mem_cons_of_mem _ (List.mem_cons_of_mem _ (mem_of_sibling? h))

/-- A path takes one sibling from each layer. -/
theorem length_of_path : ∀ {layers : List (List Digest)} {d : Digest} {proof : List Digest},
    path layers d = .ok proof → proof.length = layers.length
  | [], _, _, h => by
    cases h
    rfl
  | layer :: above, d, proof, h => by
    unfold path at h
    split at h
    · cases h
    · rename_i s _
      cases hrest : path above (join d s) with
      | error e =>
        rw [hrest] at h
        cases h
      | ok rest =>
        rw [hrest] at h
        cases h
        rw [List.length_cons, List.length_cons, length_of_path hrest]

/-- A digest that is not in the lowest layer is missed there. -/
theorem path_of_not_mem {layer : List Digest} (above : List (List Digest)) {d : Digest}
    (h : d ∉ layer) : path (layer :: above) d = .error (.notFound d) := by
  unfold path
  cases hs : sibling? d layer with
  | none => rfl
  | some s => exact absurd (mem_of_sibling? hs) h

/-! ## Small trees -/

/-- A row of one digest or none is not stored. -/
theorem layers_of_small {leaves : List Digest} (h : leaves.length ≤ 1) :
    (Tree.ofLeaves leaves).layers = [] := by
  unfold Tree.ofLeaves
  match leaves, h with
  | [], _ => rw [climb]
  | [_], _ => rw [climb]

/-! ## Other trees -/

/-- The lowest layer is the row of leaves, of even length. -/
theorem layers_eq_cons {leaves : List Digest} (h : 2 ≤ leaves.length) :
    ∃ above, (Tree.ofLeaves leaves).layers = evened leaves :: above := by
  match leaves, h with
  | a :: b :: rest, _ => exact ⟨_, layers_climb a b rest⟩

section Large

variable {leaves : List Digest} (large : 2 ≤ leaves.length)
include large

theorem proof_eq_path (d : Digest) :
    (Tree.ofLeaves leaves).proof d = path (Tree.ofLeaves leaves).layers d := by
  unfold Tree.proof
  rw [if_neg (by simpa using layers_ne_nil large)]

/-- A leaf has a proof of the height of the tree, which leads to the root. -/
theorem exists_proof_of_mem {d : Digest} (hd : d ∈ leaves) :
    ∃ proof, (Tree.ofLeaves leaves).proof d = .ok proof ∧
      proof.length = (Tree.ofLeaves leaves).layers.length ∧
      recombine d proof = (Tree.ofLeaves leaves).root := by
  obtain ⟨proof, hpath, hroot⟩ := path_climb leaves hd
  exact ⟨proof, (proof_eq_path large d).trans hpath, length_of_path hpath, hroot⟩

/-- What has no proof is not a leaf, and is what the fault names. -/
theorem proof_eq_error_iff {d : Digest} {fault : Fault} :
    (Tree.ofLeaves leaves).proof d = .error fault ↔ d ∉ leaves ∧ fault = .notFound d := by
  by_cases hd : d ∈ leaves
  · obtain ⟨proof, hproof, _⟩ := exists_proof_of_mem large hd
    simp [hproof, hd]
  · obtain ⟨above, hlayers⟩ := layers_eq_cons large
    have hmissed : (Tree.ofLeaves leaves).proof d = .error (.notFound d) := by
      rw [proof_eq_path large, hlayers]
      exact path_of_not_mem above fun hmem => hd (mem_evened.1 hmem)
    simp [hmissed, hd, eq_comm]

/-- The table of proofs has the proof of each leaf and nothing else. -/
theorem exists_proofs : ∃ table, (Tree.ofLeaves leaves).proofs = .ok table ∧
    ∀ d proof, table.get? d = some proof ↔
      d ∈ leaves ∧ (Tree.ofLeaves leaves).proof d = .ok proof := by
  obtain ⟨above, hlayers⟩ := layers_eq_cons large
  have hproofs : ∀ d ∈ evened leaves, ∃ proof, (Tree.ofLeaves leaves).proof d = .ok proof := by
    intro d hd
    obtain ⟨proof, hproof, _⟩ := exists_proof_of_mem large (mem_evened.1 hd)
    exact ⟨proof, hproof⟩
  obtain ⟨table, htable, hget⟩ := Table.exists_foldlM_insert ∅ hproofs
  refine ⟨table, ?_, fun d proof => ?_⟩
  · unfold Tree.proofs
    rw [hlayers]
    exact htable
  · rw [hget, mem_evened, Table.get?_empty]
    simp

end Large

/-- A table whose values are those found for the items of a list has these items for its keys, each
once. -/
theorem keys_perm_dedup {table : Table Digest (List Digest)} {leaves : List Digest}
    {f : Digest → Except Fault (List Digest)} (hfound : ∀ d ∈ leaves, ∃ proof, f d = .ok proof)
    (hget : ∀ d proof, table.get? d = some proof ↔ d ∈ leaves ∧ f d = .ok proof) :
    table.keys.Perm leaves.dedup := by
  refine (List.perm_ext_iff_of_nodup table.nodup_keys leaves.nodup_dedup).2 fun d => ?_
  rw [Table.mem_keys, List.mem_dedup]
  constructor
  · rintro ⟨proof, h⟩
    exact ((hget d proof).1 h).1
  · intro hd
    obtain ⟨proof, hproof⟩ := hfound d hd
    exact ⟨proof, (hget d proof).2 ⟨hd, hproof⟩⟩

/-- A tree over one leaf or none proves nothing. Over more, a digest has no proof exactly if it is
not a leaf, and is then named itself; a leaf has one, which is as long as the tree is high and leads
to the root; and the table of all proofs has each of the leaves for a key once, with its proof. Leaves
may repeat. -/
theorem proofs_are_complete_and_exact (leaves : List Digest) (d : Digest) :
    (leaves.length ≤ 1 → (Tree.ofLeaves leaves).proof d = .error (.notFound d) ∧
      (Tree.ofLeaves leaves).proofs = .error .noLayers) ∧
    (2 ≤ leaves.length →
      (∀ fault, (Tree.ofLeaves leaves).proof d = .error fault ↔
        d ∉ leaves ∧ fault = .notFound d) ∧
      (d ∈ leaves → ∃ proof, (Tree.ofLeaves leaves).proof d = .ok proof ∧
        proof.length = (Tree.ofLeaves leaves).layers.length ∧
        recombine d proof = (Tree.ofLeaves leaves).root) ∧
      ∃ table, (Tree.ofLeaves leaves).proofs = .ok table ∧ table.keys.Perm leaves.dedup ∧
        ∀ leaf proof, table.get? leaf = some proof ↔
          leaf ∈ leaves ∧ (Tree.ofLeaves leaves).proof leaf = .ok proof) := by
  refine ⟨fun small => ?_, fun large => ⟨fun fault => proof_eq_error_iff large,
    fun hd => exists_proof_of_mem large hd, ?_⟩⟩
  · have hlayers := layers_of_small small
    unfold Tree.proof Tree.proofs
    rw [hlayers]
    exact ⟨rfl, rfl⟩
  · obtain ⟨table, htable, hget⟩ := exists_proofs large
    refine ⟨table, htable, keys_perm_dedup (fun leaf hleaf => ?_) hget, hget⟩
    obtain ⟨proof, hproof, _⟩ := exists_proof_of_mem large hleaf
    exact ⟨proof, hproof⟩

/-- A digest that is the first leaf and the third has one proof, and one entry in the table. What is
no leaf is missed by its own name. -/
theorem repeated_leaf_is_proved_once :
    (∃ proof, (Tree.ofLeaves [.zero, .ofNat 1, .zero]).proof .zero = .ok proof ∧
      proof.length = 2 ∧ recombine .zero proof = (Tree.ofLeaves [.zero, .ofNat 1, .zero]).root) ∧
    (∃ table, (Tree.ofLeaves [.zero, .ofNat 1, .zero]).proofs = .ok table ∧
      table.keys.length = 2) ∧
    (Tree.ofLeaves [.zero, .ofNat 1, .zero]).proof (.ofNat 2) = .error (.notFound (.ofNat 2)) := by
  have hheight : (Tree.ofLeaves [.zero, .ofNat 1, .zero]).layers.length = 2 := by
    unfold Tree.ofLeaves
    rw [climb_three]
    rfl
  have large : 2 ≤ [Digest.zero, .ofNat 1, .zero].length := by decide
  obtain ⟨_, hleaf, table, htable, hkeys, _⟩ :=
    (proofs_are_complete_and_exact [.zero, .ofNat 1, .zero] .zero).2 large
  obtain ⟨hmissed, _⟩ := (proofs_are_complete_and_exact [.zero, .ofNat 1, .zero] (.ofNat 2)).2 large
  obtain ⟨proof, hproof, hlength, hroot⟩ := hleaf (by decide)
  refine ⟨⟨proof, hproof, hlength.trans hheight, hroot⟩, ⟨table, htable, ?_⟩, ?_⟩
  · rw [hkeys.length_eq]
    decide
  · exact (hmissed _).2 ⟨by decide, rfl⟩

end Quorate.Merkle
