/-
Readiness: in a committed ceremony over a valid proposal, what is put together for a chain never
fails on the tree. The leaf made at submission is one that the tree was built over, so its proof is
found and leads to the root. A root is held up only by a missing executor or a signature that cannot
be recovered, and an operation only by a missing executor; all else goes to the executor.
-/
import Quorate.Ceremony.Submission
import Quorate.Proofs.Ceremony.Committed
import Quorate.Proofs.Proposal.Validity
import Quorate.Proofs.Sample

namespace Quorate.Ceremony

variable {σ : Type}

/-! ## What is looked up -/

section Lookups

variable {c : Ceremony σ} {chain : Selector} {i : Nat} {e : Error}

theorem executor_eq_ok {x : Executor σ} :
    c.executor chain = .ok x ↔ c.executors.get? chain = some x := Table.find_eq_ok

theorem executor_eq_error :
    c.executor chain = .error e ↔ c.executors.get? chain = none ∧ e = .noExecutor chain :=
  Table.find_eq_error

theorem operationAt_eq_ok {op : Operation} :
    c.operationAt i = .ok op ↔ c.proposal.operations[i]? = some op := by
  unfold operationAt
  cases c.proposal.operations[i]? <;> simp

theorem operationAt_eq_error : c.operationAt i = .error e ↔
    c.proposal.operations[i]? = none ∧
      e = .indexOutOfRange i c.proposal.operations.length := by
  unfold operationAt
  cases c.proposal.operations[i]? <;> simp [eq_comm]

theorem nonceAt_eq_ok {nonce : UInt64} :
    c.nonceAt i = .ok nonce ↔ c.nonces[i]? = some nonce := by
  unfold nonceAt
  cases c.nonces[i]? <;> simp

theorem nonceAt_eq_error : c.nonceAt i = .error e ↔
    c.nonces[i]? = none ∧ e = .indexOutOfRange i c.nonces.length := by
  unfold nonceAt
  cases c.nonces[i]? <;> simp [eq_comm]

theorem proofOf_eq_ok {leaf : Digest} {proof : List Digest} :
    c.proofOf leaf = .ok proof ↔ c.tree.proof leaf = .ok proof := mapError_eq_ok

theorem proofOf_eq_error {leaf : Digest} : c.proofOf leaf = .error e ↔
    ∃ fault, c.tree.proof leaf = .error fault ∧ .merkle fault = e := mapError_eq_error

end Lookups

/-! ## Proofs -/

/-- The tree of a committed ceremony over a valid proposal is built over two leaves or more. -/
theorem Committed.exists_leaves {c : Ceremony σ} (h : c.Committed) {now : Int}
    (valid : c.proposal.Valid now) :
    ∃ leaves, 2 ≤ leaves.length ∧
      Commitment.Covers c.encoders c.proposal ⟨c.tree, c.nonces⟩ leaves := by
  obtain ⟨leaves, hcov⟩ := Commitment.exists_covers h
  refine ⟨leaves, ?_, hcov⟩
  have h1 := List.length_pos_of_ne_nil valid.selectors_ne_nil
  have h2 := List.length_pos_of_ne_nil valid.operations
  rw [hcov.length]
  omega

/-- A chain of the proposal can be encoded again, and its leaf has a proof. -/
theorem Committed.chain_proof {c : Ceremony σ} (h : c.Committed) {now : Int}
    (valid : c.proposal.Valid now) {chain : Selector} (hchain : chain ∈ c.proposal.selectors) :
    ∃ m e leaf proof, c.proposal.chains.get? chain = some m ∧ c.encoders.get? chain = some e ∧
      e.metadataLeaf m = .ok leaf ∧ c.proofOf leaf = .ok proof ∧
      Merkle.verify c.root leaf proof = true := by
  obtain ⟨leaves, htwo, hcov⟩ := h.exists_leaves valid
  obtain ⟨leaf, hmem, hleaf⟩ := hcov.chains chain hchain
  obtain ⟨e, m, he, hm, heq⟩ := Commitment.metadataLeaf_eq_ok.1 hleaf
  obtain ⟨proof, hproof, hroot⟩ := Merkle.proof_of_mem htwo hmem
  have htree : c.tree = .ofLeaves leaves := hcov.tree
  refine ⟨m, e, leaf, proof, hm, he, heq, proofOf_eq_ok.2 ?_, ?_⟩
  · rw [htree]; exact hproof
  · unfold root; rw [htree]; exact hroot

/-- An operation of the proposal can be encoded again with its nonce, and its leaf has a proof. The
nonce is the starting count of the chain and one more for each earlier operation on it. -/
theorem Committed.operation_proof {c : Ceremony σ} (h : c.Committed) {now : Int}
    (valid : c.proposal.Valid now) {i : Nat} {op : Operation}
    (hop : c.proposal.operations[i]? = some op) :
    ∃ m e nonce leaf proof, c.proposal.chains.get? op.chain = some m ∧
      c.encoders.get? op.chain = some e ∧ c.nonces[i]? = some nonce ∧
      nonce.toNat =
        m.startingCount.toNat + Proposal.countOn op.chain (c.proposal.operations.take i) ∧
      e.operationLeaf nonce m op = .ok leaf ∧ c.proofOf leaf = .ok proof ∧
      Merkle.verify c.root leaf proof = true := by
  obtain ⟨leaves, htwo, hcov⟩ := h.exists_leaves valid
  obtain ⟨_, nonces, _, _, hnonces, _, heq⟩ := Commitment.ofProposal_eq_ok.1 h
  obtain ⟨rfl⟩ : c.nonces = nonces := congrArg Commitment.nonces heq
  obtain ⟨m, nonce, hm, hnonce, hval⟩ := (Proposal.nonces_spec hnonces).2 i op hop
  obtain ⟨leaf, hmem, hleaf⟩ := hcov.operations i op nonce hop hnonce
  obtain ⟨e, m', he, hm', henc⟩ := Commitment.operationLeaf_eq_ok.1 hleaf
  obtain ⟨rfl⟩ : m = m' := Option.some.inj (hm.symm.trans hm')
  obtain ⟨proof, hproof, hroot⟩ := Merkle.proof_of_mem htwo hmem
  have htree : c.tree = .ofLeaves leaves := hcov.tree
  refine ⟨m, e, nonce, leaf, proof, hm, he, hnonce, hval, henc, proofOf_eq_ok.2 ?_, ?_⟩
  · rw [htree]; exact hproof
  · unfold root; rw [htree]; exact hroot

/-! ## Submissions -/

/-- With all that lies between executor and signatures in place, setting the root is to find the
executor, to sort the signatures, and to submit. -/
theorem setRoot_eq {c : Ceremony σ} {chain : Selector} {m : Metadata} {e : Encoder} {leaf : Digest}
    {proof : List Digest} (hm : c.proposal.chains.get? chain = some m)
    (he : c.encoders.get? chain = some e) (hleaf : e.metadataLeaf m = .ok leaf)
    (hproof : c.proofOf leaf = .ok proof) :
    c.setRoot chain = (do
      let x ← c.executor chain
      let sigs ← c.sortedSignatures
      asking (x.setRoot m ⟨proof, c.root, c.proposal.validUntil, sigs⟩)) := by
  have hm' : Commitment.metadata c.proposal chain = .ok m := Commitment.metadata_eq_ok.2 hm
  have he' : Commitment.encoder c.encoders chain = .ok e := Commitment.encoder_eq_ok.2 he
  have hleaf' : (e.metadataLeaf m).mapError Error.collaborator = .ok leaf := mapError_eq_ok.2 hleaf
  -- nothing between executor and signatures can fail
  unfold setRoot prepareRoot
  cases c.executor chain with
  | error err => rfl
  | ok x =>
    rw [ok_bind, hm', ok_bind, he', ok_bind, hleaf', ok_bind, hproof, ok_bind]
    cases c.sortedSignatures with
    | error err => rfl
    | ok sigs => rfl

/-- With all that an operation needs in place, executing it is to find the executor and to submit. -/
theorem execute_eq {c : Ceremony σ} {i : Nat} {op : Operation} {m : Metadata} {e : Encoder}
    {nonce : UInt64} {leaf : Digest} {proof : List Digest}
    (hop : c.proposal.operations[i]? = some op) (hm : c.proposal.chains.get? op.chain = some m)
    (he : c.encoders.get? op.chain = some e) (hnonce : c.nonces[i]? = some nonce)
    (hleaf : e.operationLeaf nonce m op = .ok leaf) (hproof : c.proofOf leaf = .ok proof) :
    c.execute i = (do
      let x ← c.executor op.chain
      asking (x.execute m nonce proof op)) := by
  have hop' : c.operationAt i = .ok op := operationAt_eq_ok.2 hop
  have hm' : Commitment.metadata c.proposal op.chain = .ok m := Commitment.metadata_eq_ok.2 hm
  have hnonce' : c.nonceAt i = .ok nonce := nonceAt_eq_ok.2 hnonce
  have he' : Commitment.encoder c.encoders op.chain = .ok e := Commitment.encoder_eq_ok.2 he
  have hleaf' : (e.operationLeaf nonce m op).mapError Error.collaborator = .ok leaf :=
    mapError_eq_ok.2 hleaf
  unfold execute prepareOperation
  rw [hop', ok_bind]
  cases c.executor op.chain with
  | error err => rfl
  | ok x =>
    rw [ok_bind, hm', ok_bind, hnonce', ok_bind, he', ok_bind, hleaf', ok_bind, hproof]
    rfl

/-! ## Faults of a submission -/

theorem sortedSignatures_eq_error {c : Ceremony σ} {err : Error}
    (h : c.sortedSignatures = .error err) : ∃ s, err = .signature s := by
  unfold sortedSignatures at h
  rcases bind_eq_error.1 h with h | ⟨keyed, _, h⟩
  · obtain ⟨sig, _, hsig⟩ := exists_of_mapM_eq_error h
    obtain ⟨s, _, hs⟩ := mapError_eq_error.1 (map_eq_error.1 hsig)
    exact ⟨s, hs.symm⟩
  · cases h

theorem executor_ne_merkle (c : Ceremony σ) (chain : Selector) (fault : Merkle.Fault) :
    c.executor chain ≠ .error (.merkle fault) := by
  intro h
  cases (executor_eq_error.1 h).2

theorem sortedSignatures_ne_merkle (c : Ceremony σ) (fault : Merkle.Fault) :
    c.sortedSignatures ≠ .error (.merkle fault) := by
  intro h
  obtain ⟨s, hs⟩ := sortedSignatures_eq_error h
  cases hs

theorem asking_ne_merkle {α : Type} (act : Act σ α) (w : σ) (fault : Merkle.Fault) :
    (outcome (asking act) w).1 ≠ .error (.merkle fault) := by
  rw [outcome_asking]
  intro h
  obtain ⟨complaint, _, hc⟩ := mapError_eq_error.1 h
  cases hc

/-! ## Every submission carries a proof -/

/-- Setting the root on a chain never fails on the tree. If there is an executor and all signatures
are recovered, it is to hand the executor what the proposal knows of the chain, a proof that leads
from the chain's leaf to the root, the root, the expiry and the sorted signatures. -/
def SubmitsRoot (c : Ceremony σ) (chain : Selector) : Prop :=
  ∃ m e leaf proof, c.proposal.chains.get? chain = some m ∧ c.encoders.get? chain = some e ∧
    e.metadataLeaf m = .ok leaf ∧ Merkle.verify c.root leaf proof = true ∧
    c.setRoot chain = (do
      let x ← c.executor chain
      let sigs ← c.sortedSignatures
      asking (x.setRoot m ⟨proof, c.root, c.proposal.validUntil, sigs⟩)) ∧
    ∀ w fault, (outcome (c.setRoot chain) w).1 ≠ .error (.merkle fault)

/-- Executing the operation at an index never fails on the tree. If there is an executor, it is to
hand the executor what the proposal knows of the chain, the nonce recorded for the index, a proof
that leads from the operation's leaf to the root, and the operation. -/
def SubmitsOperation (c : Ceremony σ) (i : Nat) : Prop :=
  ∃ op m e nonce leaf proof, c.proposal.operations[i]? = some op ∧
    c.proposal.chains.get? op.chain = some m ∧ c.encoders.get? op.chain = some e ∧
    c.nonces[i]? = some nonce ∧ e.operationLeaf nonce m op = .ok leaf ∧
    Merkle.verify c.root leaf proof = true ∧
    c.execute i = (do
      let x ← c.executor op.chain
      asking (x.execute m nonce proof op)) ∧
    ∀ w fault, (outcome (c.execute i) w).1 ≠ .error (.merkle fault)

theorem Committed.submitsRoot {c : Ceremony σ} (h : c.Committed) {now : Int}
    (valid : c.proposal.Valid now) {chain : Selector} (hchain : chain ∈ c.proposal.selectors) :
    c.SubmitsRoot chain := by
  obtain ⟨m, e, leaf, proof, hm, he, hleaf, hproof, hroot⟩ := h.chain_proof valid hchain
  have heq := setRoot_eq hm he hleaf hproof
  refine ⟨m, e, leaf, proof, hm, he, hleaf, hroot, heq, fun w fault => ?_⟩
  rw [heq]
  exact outcome_lift_bind_ne_error (c.executor_ne_merkle chain fault) fun x =>
    outcome_lift_bind_ne_error (c.sortedSignatures_ne_merkle fault) fun sigs =>
      asking_ne_merkle _ w fault

theorem Committed.submitsOperation {c : Ceremony σ} (h : c.Committed) {now : Int}
    (valid : c.proposal.Valid now) {i : Nat} (hi : i < c.proposal.operations.length) :
    c.SubmitsOperation i := by
  have hop := List.getElem?_eq_getElem hi
  obtain ⟨m, e, nonce, leaf, proof, hm, he, hnonce, _, hleaf, hproof, hroot⟩ :=
    h.operation_proof valid hop
  have heq := execute_eq hop hm he hnonce hleaf hproof
  refine ⟨_, m, e, nonce, leaf, proof, hop, hm, he, hnonce, hleaf, hroot, heq, fun w fault => ?_⟩
  rw [heq]
  exact outcome_lift_bind_ne_error (c.executor_ne_merkle _ fault) fun x =>
    asking_ne_merkle _ w fault

/-- Whatever becomes of a ceremony over a proposal that was valid at some time, every chain can be
given the root and every operation can be executed, as far as the tree is concerned; the encoders,
the root and the nonces are those that it started with, and the proposal has only gained
signatures. -/
theorem every_submission_carries_a_proof {p : Proposal} {encoders : Encoders} {now : Int}
    {c d : Ceremony σ} (valid : p.validateAt now = .ok ()) (started : start p encoders = .ok c)
    (later : Becomes c d) :
    d.encoders = encoders ∧ d.root = c.root ∧ d.nonces = c.nonces ∧
      (∃ sigs, d.proposal = { p with signatures := p.signatures ++ sigs }) ∧
      (∀ chain ∈ p.selectors, d.SubmitsRoot chain) ∧
      ∀ i < p.operations.length, d.SubmitsOperation i := by
  have hc := committed_of_start started
  obtain ⟨k, _, rfl⟩ := start_eq_ok.1 started
  have hkeeps := later.keeps
  have hd : d.Committed := hkeeps.committed hc
  obtain ⟨sigs, hp⟩ := hkeeps.proposal
  have hvalid : d.proposal.Valid now := by
    obtain ⟨h1, h2, h3, h4, h5, h6⟩ := Proposal.validateAt_eq_ok.1 valid
    rw [hp]
    exact ⟨h1, h2, h3, h4, h5, h6⟩
  refine ⟨hkeeps.encoders, ?_, hkeeps.nonces, ⟨sigs, hp⟩, fun chain hchain => ?_, fun i hi => ?_⟩
  · unfold root
    rw [hkeeps.tree]
  · exact hd.submitsRoot hvalid (by rw [hp]; exact hchain)
  · exact hd.submitsOperation hvalid (by rw [hp]; exact hi)

/-- The leaves of blind encoders are all equal, and are found all the same. -/
theorem blind_leaves_carry_proofs : ∃ c d : Ceremony Unit,
    Sample.proposal.validateAt 0 = .ok () ∧ start Sample.proposal Sample.encoders = .ok c ∧
      d = (c.addSignature Sample.signature).withExecutors Sample.executors ∧ Becomes c d ∧
      d.SubmitsRoot Sample.one ∧ d.SubmitsOperation 2 := by
  obtain ⟨c, hc⟩ : ∃ c : Ceremony Unit, start Sample.proposal Sample.encoders = .ok c := ⟨_, rfl⟩
  have later : Becomes c ((c.addSignature Sample.signature).withExecutors Sample.executors) :=
    .executors Sample.executors (.signed Sample.signature .same)
  obtain ⟨_, _, _, _, hroot, hop⟩ := every_submission_carries_a_proof Sample.valid hc later
  exact ⟨c, _, Sample.valid, hc, rfl, later, hroot Sample.one (by decide), hop 2 (by decide)⟩

end Quorate.Ceremony
