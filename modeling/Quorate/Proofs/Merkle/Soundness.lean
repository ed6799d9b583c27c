/-
Soundness: what a proof shows that leads to the root of a tree. Whoever made the proof chose its
digests freely, and may have made it shorter than the tree is high; then the digest it starts from
is one of the row as many steps below the root, or a step of the proof joins a pair that collides
with a pair of the tree.
-/
import Quorate.Proofs.Merkle.Pairs

namespace Quorate.Merkle

/-- At a step of the way up from a digest, what was reached so far and its sibling collide with a
pair of a layer. -/
def StepCollides (layers : List (List Digest)) (d : Digest) (proof : List Digest) : Prop :=
  ∃ i s, proof[i]? = some s ∧ ∃ layer ∈ layers, ∃ a b, Paired layer a b ∧
    Collide (recombine d (proof.take i)) s a b

theorem StepCollides.below {layers : List (List Digest)} {d : Digest} {proof : List Digest}
    (h : StepCollides layers d proof) (layer : List Digest) :
    StepCollides (layer :: layers) d proof := by
  obtain ⟨i, s, hs, above, hmem, hcollide⟩ := h
  exact ⟨i, s, hs, above, List.mem_cons_of_mem _ hmem, hcollide⟩

theorem StepCollides.step {layers : List (List Digest)} {d s : Digest} {proof : List Digest}
    (h : StepCollides layers (join d s) proof) : StepCollides layers d (s :: proof) := by
  obtain ⟨i, s', hs', hcollide⟩ := h
  exact ⟨i + 1, s', hs', hcollide⟩

/-! ## Rows -/

/-- The rows over a row of digests: the layers, and by itself the root. -/
def rows (row : List Digest) : List (List Digest) := (climb row).1 ++ [[(climb row).2]]

theorem rows_cons_cons (a b : Digest) (rest : List Digest) :
    rows (a :: b :: rest) =
      evened (a :: b :: rest) :: rows (parents (evened (a :: b :: rest))) := by
  unfold rows
  rw [layers_climb, root_climb, List.cons_append]

/-- The lowest of the rows holds the digests that they are built over. -/
theorem mem_of_mem_rows_zero {row low : List Digest} {d : Digest} (hne : row ≠ [])
    (hlow : (rows row)[0]? = some low) (hd : d ∈ low) : d ∈ row := by
  match row, hne with
  | [e], _ =>
    have hrows : rows [e] = [[e]] := by unfold rows; rw [climb]; rfl
    rw [hrows] at hlow
    cases hlow
    exact hd
  | a :: b :: rest, _ =>
    rw [rows_cons_cons] at hlow
    cases hlow
    exact mem_evened.1 hd

theorem parents_evened_ne_nil (a b : Digest) (rest : List Digest) :
    parents (evened (a :: b :: rest)) ≠ [] := by
  intro h
  have hlength := congrArg List.length h
  rw [length_parents, length_evened] at hlength
  simp only [List.length_cons, List.length_nil] at hlength
  omega

/-- The highest of the rows is the root by itself. -/
theorem mem_rows_of_nil {row : List Digest} {d : Digest} (h : recombine d [] = (climb row).2) :
    ∃ level, (rows row)[(climb row).1.length]? = some level ∧ d ∈ level := by
  refine ⟨[(climb row).2], ?_, List.mem_singleton.2 h⟩
  unfold rows
  rw [List.getElem?_append_right (Nat.le_refl _), Nat.sub_self]
  rfl

/-- A digest from which a proof leads to the root stands in the row that is as many steps below the
root as the proof has, or a step collides. The induction is on the climb. -/
theorem mem_rows_or_stepCollides (row : List Digest) {d : Digest} {proof : List Digest}
    (hlength : proof.length ≤ (climb row).1.length) (hroot : recombine d proof = (climb row).2) :
    (∃ level, (rows row)[(climb row).1.length - proof.length]? = some level ∧ d ∈ level) ∨
      StepCollides (climb row).1 d proof := by
  induction row using climb.induct generalizing d proof with
  | case1 =>
    rw [climb] at hlength
    obtain rfl := List.length_eq_zero_iff.1 (Nat.le_zero.1 hlength)
    exact .inl (mem_rows_of_nil hroot)
  | case2 e =>
    rw [climb] at hlength
    obtain rfl := List.length_eq_zero_iff.1 (Nat.le_zero.1 hlength)
    exact .inl (mem_rows_of_nil hroot)
  | case3 a b rest layer =>
    rename_i ih
    have hlayer : evened (a :: b :: rest) = layer := rfl
    rw [layers_climb, hlayer] at hlength ⊢
    rw [root_climb, hlayer] at hroot
    rw [rows_cons_cons, hlayer, List.length_cons]
    by_cases hfull : proof.length = (climb (parents layer)).1.length + 1
    · -- the first step leaves the lowest layer, and by the rest its result is in the row above
      obtain ⟨s, proof, rfl⟩ := List.exists_cons_of_length_eq_add_one hfull
      have hheight : proof.length = (climb (parents layer)).1.length := Nat.succ.inj hfull
      rcases ih hheight.le hroot with ⟨low, hlow, hjoin⟩ | hcollides
      · rw [hheight, Nat.sub_self] at hlow
        have hup : join d s ∈ parents layer :=
          mem_of_mem_rows_zero (parents_evened_ne_nil a b rest) hlow hjoin
        rw [hfull, Nat.sub_self]
        rcases mem_or_collide hup with hd | ⟨x, y, hpaired, hcollide⟩
        · exact .inl ⟨layer, rfl, hd⟩
        · exact .inr ⟨0, s, rfl, layer, List.mem_cons_self .., x, y, hpaired, hcollide⟩
      · exact .inr (hcollides.step.below layer)
    · -- the lowest layer is not reached
      have hshort : proof.length ≤ (climb (parents layer)).1.length := by
        rw [List.length_cons] at hlength
        omega
      rw [Nat.succ_sub hshort, List.getElem?_cons_succ]
      exact (ih hshort hroot).imp id fun h => h.below layer

/-! ## Trees -/

/-- A proof that leads to the root and is no longer than the tree is high starts from a digest of
the tree: from the root if it is empty, else from the layer that is as many steps below the root,
and so from a leaf if it has full height. Otherwise a step of it joins a pair that collides with a
pair of the tree. -/
theorem proof_starts_in_tree_or_collides {leaves : List Digest} (hne : leaves ≠ [])
    {d : Digest} {proof : List Digest}
    (hlength : proof.length ≤ (Tree.ofLeaves leaves).layers.length)
    (hverify : verify (Tree.ofLeaves leaves).root d proof = true) :
    ((proof = [] → d = (Tree.ofLeaves leaves).root) ∧
        (proof ≠ [] → ∃ layer, (Tree.ofLeaves leaves).layers[
          (Tree.ofLeaves leaves).layers.length - proof.length]? = some layer ∧ d ∈ layer) ∧
        (proof.length = (Tree.ofLeaves leaves).layers.length → d ∈ leaves)) ∨
      StepCollides (Tree.ofLeaves leaves).layers d proof := by
  have hroot : recombine d proof = (climb leaves).2 := beq_iff_eq.1 hverify
  have hlength : proof.length ≤ (climb leaves).1.length := hlength
  refine (mem_rows_or_stepCollides leaves hlength hroot).imp ?_ id
  rintro ⟨level, hlevel, hd⟩
  refine ⟨?_, fun hproof => ?_, fun hfull => ?_⟩
  · rintro rfl
    exact hroot
  · have hpos : 0 < proof.length := List.length_pos_iff.2 hproof
    unfold rows at hlevel
    rw [List.getElem?_append_left (by omega)] at hlevel
    exact ⟨level, hlevel, hd⟩
  · have hfull : proof.length = (climb leaves).1.length := hfull
    rw [hfull, Nat.sub_self] at hlevel
    exact mem_of_mem_rows_zero hne hlevel hd

theorem verify_inner (a b c : Digest) :
    verify (Tree.ofLeaves [a, b, c]).root (join a b) [join c c] = true := by
  simp [verify, recombine, Tree.ofLeaves, climb_three]

/-- Over three leaves, one digest proves what the first two join to. It is found one step below the
root. -/
theorem inner_digest_starts_short_proof :
    verify (Tree.ofLeaves [.zero, .ofNat 1, .ofNat 2]).root (join .zero (.ofNat 1))
        [join (.ofNat 2) (.ofNat 2)] = true ∧
      ((∃ layer, (Tree.ofLeaves [.zero, .ofNat 1, .ofNat 2]).layers[1]? = some layer ∧
          join .zero (.ofNat 1) ∈ layer) ∨
        StepCollides (Tree.ofLeaves [.zero, .ofNat 1, .ofNat 2]).layers (join .zero (.ofNat 1))
          [join (.ofNat 2) (.ofNat 2)]) := by
  have hverify := verify_inner .zero (.ofNat 1) (.ofNat 2)
  have hheight : (Tree.ofLeaves [.zero, .ofNat 1, .ofNat 2]).layers.length = 2 := by
    unfold Tree.ofLeaves
    rw [climb_three]
    rfl
  have hstart := proof_starts_in_tree_or_collides (List.cons_ne_nil _ _)
    (by rw [hheight]; decide) hverify
  rw [hheight] at hstart
  exact ⟨hverify, hstart.imp_left fun h => h.2.1 (List.cons_ne_nil _ _)⟩

end Quorate.Merkle
