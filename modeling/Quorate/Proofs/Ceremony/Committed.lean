/-
Committed ceremonies: those whose tree and nonces are what their encoders make of their proposal. A
ceremony starts as one and stays one while signatures are added and collaborators handed in, since
no leaf is made of a signature.
-/
import Quorate.Ceremony.Basic
import Quorate.Proofs.Commitment.Leaves
import Quorate.Proofs.Merkle.Rounds
import Quorate.Proofs.Sample

namespace Quorate

/-! ## Signatures and leaves -/

/-- The commitment to a proposal does not depend on its signatures. -/
theorem Commitment.ofProposal_signatures (encoders : Encoders) (p : Proposal)
    (sigs : List Signature) :
    ofProposal encoders { p with signatures := sigs } = ofProposal encoders p := by
  have hn : ({ p with signatures := sigs } : Proposal).nonces = p.nonces :=
    Proposal.nonces_congr rfl rfl
  unfold ofProposal
  rw [hn]
  rfl

namespace Ceremony

variable {σ : Type}

/-- The tree and the nonces are those of the proposal. -/
def Committed (c : Ceremony σ) : Prop :=
  Commitment.ofProposal c.encoders c.proposal = .ok ⟨c.tree, c.nonces⟩

/-! ## Starting -/

theorem start_eq_ok {p : Proposal} {encoders : Encoders} {c : Ceremony σ} :
    start p encoders = .ok c ↔ ∃ k, Commitment.ofProposal encoders p = .ok k ∧
      c = ⟨p, k.tree, k.nonces, encoders, none, none, none, ∅⟩ := by
  simp only [start, bind_eq_ok, Except.ok.injEq, eq_comm (a := c)]

theorem ofExecutors_eq_ok {p : Proposal} {executors : Executors σ} {c : Ceremony σ} :
    ofExecutors p executors = .ok c ↔ ∃ c₀ : Ceremony σ,
      start p (executors.map fun _ x => x.encoder) = .ok c₀ ∧ c = c₀.withExecutors executors := by
  simp only [ofExecutors, bind_eq_ok, Except.ok.injEq, eq_comm (a := c)]

theorem proposal_of_start {p : Proposal} {encoders : Encoders} {c : Ceremony σ}
    (h : start p encoders = .ok c) : c.proposal = p := by
  obtain ⟨k, _, rfl⟩ := start_eq_ok.1 h
  rfl

theorem nonces_of_start {p : Proposal} {encoders : Encoders} {c : Ceremony σ}
    (hc : start p encoders = .ok c) : p.nonces = .ok c.nonces := by
  obtain ⟨k, hk, rfl⟩ := start_eq_ok.1 hc
  obtain ⟨_, _, _, _, hn, _, rfl⟩ := Commitment.ofProposal_eq_ok.1 hk
  exact hn

theorem committed_of_start {p : Proposal} {encoders : Encoders} {c : Ceremony σ}
    (h : start p encoders = .ok c) : c.Committed := by
  obtain ⟨k, hk, rfl⟩ := start_eq_ok.1 h
  exact hk

/-! ## The sample -/

/-- The five leaves of the sample are one digest, and there are three rounds over them. -/
theorem root_of_sample {c : Ceremony σ} (h : start Sample.proposal Sample.encoders = .ok c) :
    c.root = (fun d => Merkle.join d d)^[3] .zero := by
  have hleaves : Commitment.ofProposal Sample.encoders Sample.proposal =
      .ok ⟨.ofLeaves (Commitment.ascending (List.replicate (4 + 1) .zero)), [7, 0, 8]⟩ := rfl
  obtain ⟨k, hk, hc⟩ := start_eq_ok.1 h
  have htree : c.tree = .ofLeaves (List.replicate (4 + 1) .zero) := by
    rw [hc, ← Except.ok.inj (hleaves.symm.trans hk), Commitment.ascending_replicate]
  have hrounds : Nat.clog 2 (4 + 1) = 3 := by decide
  show c.tree.root = _
  rw [htree, Merkle.root_replicate, hrounds]

/-- What is signed for the sample, digest by digest: the three rounds, and the two stages of the
payload. -/
theorem signingDigest_of_sample {c : Ceremony σ} (h : start Sample.proposal Sample.encoders = .ok c) :
    c.signingDigest = Sample.payload := by
  have hfirst : Merkle.join .zero .zero =
      .ofNat 0xad3228b676f7d3cd4284a5443f17f1962b36e491b30a40b2405849e597ba5fb5 := by
    decide +kernel
  have hsecond : Merkle.join
      (.ofNat 0xad3228b676f7d3cd4284a5443f17f1962b36e491b30a40b2405849e597ba5fb5)
      (.ofNat 0xad3228b676f7d3cd4284a5443f17f1962b36e491b30a40b2405849e597ba5fb5) =
      .ofNat 0xb4c11951957c6f8f642c4af61cd6b24640fec6dc7fc607ee8206a99e92410d30 := by
    decide +kernel
  have hthird : Merkle.join
      (.ofNat 0xb4c11951957c6f8f642c4af61cd6b24640fec6dc7fc607ee8206a99e92410d30)
      (.ofNat 0xb4c11951957c6f8f642c4af61cd6b24640fec6dc7fc607ee8206a99e92410d30) =
      .ofNat 0x21ddb9a356815c3fac1026b6dec5df3124afbadb485c9ba5a3e3398a04b7ba85 := by
    decide +kernel
  have hinner : keccak256 (Commitment.envelope
      (.ofNat 0x21ddb9a356815c3fac1026b6dec5df3124afbadb485c9ba5a3e3398a04b7ba85) 4000000000) =
      .ofNat 0x3d6bea0fb07b74ae7af2fa9d34f29e306559ae93ea9417f4bf842d0c1db4669b := by
    decide +kernel
  have houter : Commitment.personal
      (.ofNat 0x3d6bea0fb07b74ae7af2fa9d34f29e306559ae93ea9417f4bf842d0c1db4669b) =
      Sample.payload := by
    decide +kernel
  have hexpiry : c.proposal.validUntil = 4000000000 :=
    congrArg Proposal.validUntil (proposal_of_start h)
  unfold signingDigest Commitment.signingDigest
  rw [root_of_sample h, hexpiry, Function.iterate_succ_apply, Function.iterate_succ_apply,
    Function.iterate_succ_apply, Function.iterate_zero_apply, hfirst, hsecond, hthird, hinner, houter]

/-! ## The course of a ceremony -/

/-- What a ceremony becomes as signatures are added and collaborators handed in. -/
inductive Becomes (c : Ceremony σ) : Ceremony σ → Prop
  | same : Becomes c c
  | signed {d : Ceremony σ} (sig : Signature) : Becomes c d → Becomes c (d.addSignature sig)
  | executors {d : Ceremony σ} (xs : Executors σ) : Becomes c d → Becomes c (d.withExecutors xs)
  | inspectors {d : Ceremony σ} (is : Inspectors σ) : Becomes c d → Becomes c (d.withInspectors is)
  | simulators {d : Ceremony σ} (ss : Simulators σ) : Becomes c d → Becomes c (d.withSimulators ss)
  | decoders {d : Ceremony σ} (ds : Decoders) : Becomes c d → Becomes c (d.withDecoders ds)

/-- On its way a ceremony keeps its tree, its nonces, its encoders and all of its proposal but the
signatures, which only grow. -/
structure Keeps (c d : Ceremony σ) : Prop where
  tree : d.tree = c.tree
  nonces : d.nonces = c.nonces
  encoders : d.encoders = c.encoders
  proposal : ∃ sigs, d.proposal = { c.proposal with signatures := c.proposal.signatures ++ sigs }

theorem Becomes.keeps {c d : Ceremony σ} (h : Becomes c d) : Keeps c d := by
  induction h with
  | same => exact ⟨rfl, rfl, rfl, [], by simp⟩
  | signed sig _ ih =>
    obtain ⟨ht, hn, he, sigs, hp⟩ := ih
    refine ⟨ht, hn, he, sigs ++ [sig], ?_⟩
    simp only [addSignature, Proposal.addSignature, hp, List.append_assoc]
  | executors _ _ ih => exact ⟨ih.tree, ih.nonces, ih.encoders, ih.proposal⟩
  | inspectors _ _ ih => exact ⟨ih.tree, ih.nonces, ih.encoders, ih.proposal⟩
  | simulators _ _ ih => exact ⟨ih.tree, ih.nonces, ih.encoders, ih.proposal⟩
  | decoders _ _ ih => exact ⟨ih.tree, ih.nonces, ih.encoders, ih.proposal⟩

theorem Keeps.committed {c d : Ceremony σ} (h : Keeps c d) (hc : c.Committed) : d.Committed := by
  obtain ⟨sigs, hp⟩ := h.proposal
  unfold Committed
  rw [h.tree, h.nonces, h.encoders, hp, Commitment.ofProposal_signatures]
  exact hc

end Ceremony

end Quorate
