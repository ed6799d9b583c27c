/-
Interleaving: how the operations of different chains are mixed, and in which order the chains were
named, leaves no trace in what is signed. The nonce of an operation follows from its rank on its
chain, so mixed otherwise the same leaves are made, and they are put in order before the tree is
built.
-/
import Quorate.Proofs.Ceremony.Committed
import Quorate.Proofs.Commitment.Binding
import Quorate.Proofs.Proposal.Drafting
import Quorate.Proofs.Sample

namespace Quorate

namespace Commitment

variable {encoders : Encoders}

/-! ## Leaves by rank -/

/-- The nonce and the leaf of an operation with a rank. -/
def NumberedLeaf (encoders : Encoders) (p : Proposal) (e : Operation × Nat)
    (x : UInt64 × Digest) : Prop :=
  p.rankedNonce? e = some x.1 ∧ operationLeaf encoders p x.1 e.1 = .ok x.2

theorem forall₂_numberedLeaf {p : Proposal} :
    ∀ {es : List (Operation × Nat)} {nonces : List UInt64} {leaves : List Digest},
      List.Forall₂ (fun e nonce => p.rankedNonce? e = some nonce) es nonces →
      List.Forall₂ (fun e leaf => operationLeaf encoders p e.2 e.1 = .ok leaf)
        ((es.map (·.1)).zip nonces) leaves →
      ∃ xs, List.Forall₂ (NumberedLeaf encoders p) es xs ∧ nonces = xs.map (·.1) ∧
        leaves = xs.map (·.2)
  | [], _, _, .nil, hl => by
    cases hl
    exact ⟨[], .nil, rfl, rfl⟩
  | e :: es, nonce :: nonces, _, .cons hn hns, hl => by
    rw [List.map_cons, List.zip_cons_cons] at hl
    obtain ⟨leaf, leaves, hleaf, hls, rfl⟩ := List.forall₂_cons_left_iff.1 hl
    obtain ⟨xs, hxs, rfl, rfl⟩ := forall₂_numberedLeaf hns hls
    exact ⟨(nonce, leaf) :: xs, .cons ⟨hn, hleaf⟩ hxs, rfl, rfl⟩

theorem forall₂_of_numberedLeaf {p : Proposal} {es : List (Operation × Nat)}
    {xs : List (UInt64 × Digest)} (h : List.Forall₂ (NumberedLeaf encoders p) es xs) :
    List.Forall₂ (fun e nonce => p.rankedNonce? e = some nonce) es (xs.map (·.1)) ∧
      List.Forall₂ (fun e leaf => operationLeaf encoders p e.2 e.1 = .ok leaf)
        ((es.map (·.1)).zip (xs.map (·.1))) (xs.map (·.2)) := by
  induction h with
  | nil => exact ⟨.nil, .nil⟩
  | cons hx _ ih => exact ⟨.cons hx.1 ih.1, .cons hx.2 ih.2⟩

/-- Operations are numbered and encoded when each can be, by its rank. -/
theorem operationLeaves_eq_ok {p : Proposal} {nonces : List UInt64} {leaves : List Digest} :
    (p.nonces = .ok nonces ∧ operationLeaves encoders p nonces = .ok leaves) ↔
      ∃ xs, List.Forall₂ (NumberedLeaf encoders p) p.ranked xs ∧ nonces = xs.map (·.1) ∧
        leaves = xs.map (·.2) := by
  rw [Proposal.nonces_eq_ok, operationLeaves, mapM_eq_ok, ← Proposal.map_fst_ranked]
  constructor
  · rintro ⟨hn, hl⟩
    exact forall₂_numberedLeaf hn hl
  · rintro ⟨xs, hxs, rfl, rfl⟩
    exact forall₂_of_numberedLeaf hxs

/-! ## Mixed otherwise -/

theorem metadataLeaves_congr {p q : Proposal} (h : p.chains = q.chains) :
    metadataLeaves encoders p = metadataLeaves encoders q := by
  unfold metadataLeaves metadataLeaf metadata Proposal.metadata Proposal.selectors
  rw [h]

theorem numberedLeaf_congr {p q : Proposal} (h : p.chains = q.chains) :
    NumberedLeaf encoders p = NumberedLeaf encoders q := by
  unfold NumberedLeaf operationLeaf metadata Proposal.metadata Proposal.rankedNonce?
  rw [h]

theorem ofProposal_of_alike {p q : Proposal} (h : p.AlikeByChain q) {k : Commitment}
    (hk : ofProposal encoders p = .ok k) :
    ∃ k', ofProposal encoders q = .ok k' ∧ k'.tree = k.tree := by
  obtain ⟨chainLeaves, nonces, leaves, hc, hn, hl, rfl⟩ := ofProposal_eq_ok.1 hk
  obtain ⟨xs, hxs, rfl, rfl⟩ := operationLeaves_eq_ok.1 ⟨hn, hl⟩
  -- the other proposal makes the same leaves in another order
  obtain ⟨ys, hys, hperm⟩ := List.perm_comp_forall₂ h.ranked_perm.symm hxs
  rw [numberedLeaf_congr h.chains_eq] at hys
  rw [metadataLeaves_congr h.chains_eq] at hc
  obtain ⟨hn', hl'⟩ := operationLeaves_eq_ok.2 ⟨ys, hys, rfl, rfl⟩
  refine ⟨_, ofProposal_eq_ok.2 ⟨chainLeaves, _, _, hc, hn', hl', rfl⟩, ?_⟩
  have hleaves : (chainLeaves ++ ys.map (·.2)).Perm (chainLeaves ++ xs.map (·.2)) :=
    (hperm.map _).append_left _
  show Merkle.Tree.ofLeaves _ = Merkle.Tree.ofLeaves _
  rw [ascending_eq_of_perm hleaves]

end Commitment

namespace Ceremony

variable {σ : Type}

/-! ## Ceremonies over the same chains -/

theorem start_of_alike {p q : Proposal} (h : p.AlikeByChain q) {encoders : Encoders}
    {c : Ceremony σ} (hc : start p encoders = .ok c) :
    ∃ d : Ceremony σ, start q encoders = .ok d ∧ d.tree = c.tree := by
  obtain ⟨k, hk, rfl⟩ := start_eq_ok.1 hc
  obtain ⟨k', hk', htree⟩ := Commitment.ofProposal_of_alike h hk
  exact ⟨_, start_eq_ok.2 ⟨k', hk', rfl⟩, htree⟩

theorem isOk_start_iff {p : Proposal} {encoders : Encoders} :
    (start p encoders : Except Error (Ceremony σ)).isOk = true ↔
      ∃ c : Ceremony σ, start p encoders = .ok c := by
  cases (start p encoders : Except Error (Ceremony σ)) with
  | error e => exact iff_of_false nofun fun ⟨_, h⟩ => nomatch h
  | ok c => exact iff_of_true rfl ⟨c, rfl⟩

/-- Proposals that are alike chain by chain, however their operations are mixed and whatever else
they say, are both committed to or both not. If they are, they have one root and one digest to sign,
and the operations of a rank on a chain have one nonce. -/
theorem interleavings_commit_alike {p q : Proposal} (h : p.AlikeByChain q) (encoders : Encoders) :
    (start p encoders : Except Error (Ceremony σ)).isOk =
        (start q encoders : Except Error (Ceremony σ)).isOk ∧
      ∀ c d : Ceremony σ, start p encoders = .ok c → start q encoders = .ok d →
        c.root = d.root ∧ c.signingDigest = d.signingDigest ∧
          ∀ chain, (p.turns chain).length = (q.turns chain).length ∧
            ∀ (rank i j : Nat), (p.turns chain)[rank]? = some i → (q.turns chain)[rank]? = some j →
              ∃ nonce, c.nonces[i]? = some nonce ∧ d.nonces[j]? = some nonce := by
  refine ⟨?_, fun c d hc hd => ?_⟩
  · rw [Bool.eq_iff_iff, isOk_start_iff, isOk_start_iff]
    constructor
    · rintro ⟨c, hc⟩
      obtain ⟨d, hd, _⟩ := start_of_alike h hc
      exact ⟨d, hd⟩
    · rintro ⟨d, hd⟩
      obtain ⟨c, hc, _⟩ := start_of_alike h.symm hd
      exact ⟨c, hc⟩
  · obtain ⟨d', hd', htree⟩ := start_of_alike h hc
    obtain rfl : d = d' := Except.ok.inj (hd.symm.trans hd')
    have hn := nonces_of_start hc
    have hn' := nonces_of_start hd
    have hroot : c.root = d.root := (congrArg Merkle.Tree.root htree).symm
    refine ⟨hroot, ?_, fun chain => ⟨h.length_turns_eq chain, fun rank i j hi hj => ?_⟩⟩
    · unfold signingDigest
      rw [hroot, proposal_of_start hc, proposal_of_start hd, h.validUntil]
    · obtain ⟨m, nonce, hm, hnonce, hval⟩ := Proposal.nonce_of_turn hn hi
      obtain ⟨m', nonce', hm', hnonce', hval'⟩ := Proposal.nonce_of_turn hn' hj
      rw [h.metadata] at hm
      obtain rfl : m = m' := Option.some.inj (hm.symm.trans hm')
      obtain rfl : nonce = nonce' := UInt64.toNat_inj.1 (hval.trans hval'.symm)
      exact ⟨nonce, hnonce, hnonce'⟩

/-! ## An instance -/

theorem otherSteps_alike : Draft.AlikeByChain Sample.steps Sample.otherSteps := by
  refine ⟨rfl, fun chain => ?_, fun chain => ?_⟩
  all_goals
    by_cases h1 : Sample.one = chain
    · subst h1; rfl
    by_cases h2 : Sample.two = chain
    · subst h2; rfl
  · simp only [Sample.steps, Sample.otherSteps, List.filterMap_cons, List.filterMap_nil,
      Draft.Step.metadataOf, if_neg h1, if_neg h2]
  · simp [Sample.steps, Sample.otherSteps, Draft.Step.appended, Sample.call, Sample.otherCall, h1,
      h2]

/-- Two drafts that come to the same on each chain, with the operations in another order, have one
root. -/
theorem mixed_drafts_commit_alike : ∃ (p q : Proposal) (c d : Ceremony Unit),
    (Draft.ofSteps Sample.steps).build 0 = .ok p ∧
      (Draft.ofSteps Sample.otherSteps).build 0 = .ok q ∧ p.AlikeByChain q ∧
      p.operations.map (·.chain) ≠ q.operations.map (·.chain) ∧
      start p (p.chains.map fun _ _ => Sample.telling) = .ok c ∧
      start q (p.chains.map fun _ _ => Sample.telling) = .ok d ∧
      c.nonces = [7, 0, 8] ∧ d.nonces = [0, 7, 8] ∧ c.root = d.root ∧
      c.signingDigest = d.signingDigest := by
  have alike := otherSteps_alike.ofSteps
  obtain ⟨hok, hcommit⟩ := interleavings_commit_alike (σ := Unit) alike
    ((Draft.ofSteps Sample.steps).soFar.chains.map fun _ _ => Sample.telling)
  obtain ⟨c, hc⟩ : ∃ c : Ceremony Unit, start (Draft.ofSteps Sample.steps).soFar
      ((Draft.ofSteps Sample.steps).soFar.chains.map fun _ _ => Sample.telling) = .ok c := ⟨_, rfl⟩
  obtain ⟨d, hd⟩ := isOk_start_iff.1 (hok.symm.trans (isOk_start_iff.2 ⟨c, hc⟩))
  obtain ⟨hroot, hdigest, _⟩ := hcommit c d hc hd
  have hnonces := nonces_of_start hc
  have hnonces' := nonces_of_start hd
  refine ⟨_, _, c, d, rfl, rfl, alike, by decide, hc, hd, ?_, ?_, hroot, hdigest⟩
  · exact (Except.ok.inj hnonces).symm
  · exact (Except.ok.inj hnonces').symm

end Ceremony

end Quorate
