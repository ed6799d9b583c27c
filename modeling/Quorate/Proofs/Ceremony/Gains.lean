/-
Gains: a ceremony gains signatures and nothing else. What is to be signed does not depend on who has
signed, so a signature is traced to one signer early and late; and everyone who signed is found
again among those who sign later.
-/
import Quorate.Proofs.Ceremony.Committed

namespace Quorate.Ceremony

variable {σ : Type}

/-! ## Signing -/

theorem sign_eq_ok {c : Ceremony σ} {now : Int} {signer : Signer} {sig : Signature} :
    c.sign now signer = .ok sig ↔
      c.proposal.validateAt now = .ok () ∧ signer.signature c.signingDigest = .ok sig := by
  simp only [sign, bind_eq_ok, mapError_eq_ok]
  constructor
  · rintro ⟨_, hvalid, hsig⟩; exact ⟨hvalid, hsig⟩
  · rintro ⟨hvalid, hsig⟩; exact ⟨(), hvalid, hsig⟩

/-! ## Gaining signatures -/

/-- The ceremony `d` is `c` with more signatures. It may have other collaborators, but not other
encoders. -/
structure Gains (c : Ceremony σ) (sigs : List Signature) (d : Ceremony σ) : Prop where
  tree : d.tree = c.tree
  nonces : d.nonces = c.nonces
  encoders : d.encoders = c.encoders
  proposal : d.proposal = { c.proposal with signatures := c.proposal.signatures ++ sigs }

namespace Gains

variable {c d e : Ceremony σ} {sigs sigs' : List Signature}

/-- A ceremony with other collaborators gains nothing. -/
theorem none (htree : d.tree = c.tree) (hnonces : d.nonces = c.nonces)
    (hencoders : d.encoders = c.encoders) (hproposal : d.proposal = c.proposal) : Gains c [] d :=
  ⟨htree, hnonces, hencoders, by rw [hproposal, List.append_nil]⟩

theorem refl (c : Ceremony σ) : Gains c [] c := none rfl rfl rfl rfl

theorem addSignature (c : Ceremony σ) (sig : Signature) : Gains c [sig] (c.addSignature sig) :=
  ⟨rfl, rfl, rfl, rfl⟩

theorem trans (h : Gains c sigs d) (h' : Gains d sigs' e) : Gains c (sigs ++ sigs') e := by
  refine ⟨h'.tree.trans h.tree, h'.nonces.trans h.nonces, h'.encoders.trans h.encoders, ?_⟩
  rw [h'.proposal, h.proposal, List.append_assoc]

theorem keeps (h : Gains c sigs d) : Keeps c d := ⟨h.tree, h.nonces, h.encoders, sigs, h.proposal⟩

theorem signatures (h : Gains c sigs d) :
    d.proposal.signatures = c.proposal.signatures ++ sigs := by rw [h.proposal]

theorem root (h : Gains c sigs d) : d.root = c.root := congrArg Merkle.Tree.root h.tree

theorem signingDigest (h : Gains c sigs d) : d.signingDigest = c.signingDigest := by
  unfold Ceremony.signingDigest
  rw [h.root, h.proposal]

theorem validateAt (h : Gains c sigs d) (now : Int) :
    d.proposal.validateAt now = c.proposal.validateAt now := by
  rw [h.proposal]
  rfl

theorem sign (h : Gains c sigs d) : d.sign = c.sign := by
  funext now signer
  unfold Ceremony.sign
  rw [h.validateAt, h.signingDigest]

theorem signerOf (h : Gains c sigs d) : d.signerOf = c.signerOf := by
  unfold Ceremony.signerOf
  rw [h.signingDigest]

theorem signers (h : Gains c sigs d) :
    d.signers = (c.proposal.signatures ++ sigs).mapM c.signerOf := by
  unfold Ceremony.signers
  rw [h.signerOf, h.signatures]

end Gains

end Quorate.Ceremony
