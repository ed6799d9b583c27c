/-
Sending: what is brought to a chain is sent once and last, or not at all. Everything that can fail
before that is looked at first, one thing after the other, and the first that fails is the error;
then no executor has been handed anything. Otherwise the answer of the one executor is passed on, be
it a receipt or a complaint. To see what executors are handed, they are made to keep a journal.
-/
import Quorate.Proofs.Ceremony.BySigner
import Quorate.Proofs.Ceremony.Readiness

namespace Quorate

variable {σ α : Type}

/-! ## Journals -/

/-- What an executor is handed. -/
inductive Sent where
  | root (chain : Selector) (metadata : Metadata) (submission : RootSubmission)
  | operation (chain : Selector) (metadata : Metadata) (nonce : UInt64) (proof : List Digest)
      (operation : Operation)

/-- A world with a journal of what executors were handed, the latest last. -/
structure Journaled (σ : Type) where
  sent : List Sent
  world : σ

/-- An act that leaves the journal as it is. -/
def Act.unnoted (act : Act σ α) : Act (Journaled σ) α := fun j =>
  ((outcome act j.world).1, ⟨j.sent, (outcome act j.world).2⟩)

/-- An act that is put on the journal. -/
def Act.noted (entry : Sent) (act : Act σ α) : Act (Journaled σ) α := fun j =>
  ((outcome act j.world).1, ⟨j.sent ++ [entry], (outcome act j.world).2⟩)

/-- The executor of a chain, which puts on the journal what it is handed. -/
def Executor.journaled (chain : Selector) (x : Executor σ) : Executor (Journaled σ) where
  encoder := x.encoder
  setRoot m s := (x.setRoot m s).noted (.root chain m s)
  execute m nonce proof op := (x.execute m nonce proof op).noted (.operation chain m nonce proof op)

def Inspector.journaled (i : Inspector σ) : Inspector (Journaled σ) where
  policy contract := (i.policy contract).unnoted
  count contract := (i.count contract).unnoted

def Simulator.journaled (s : Simulator σ) : Simulator (Journaled σ) where
  simulate m op := (s.simulate m op).unnoted

namespace Ceremony

/-- The ceremony on a world with a journal. -/
def journaled (c : Ceremony σ) : Ceremony (Journaled σ) where
  proposal := c.proposal
  tree := c.tree
  nonces := c.nonces
  encoders := c.encoders
  inspectors := c.inspectors.map fun is => is.map fun _ => Inspector.journaled
  simulators := c.simulators.map fun ss => ss.map fun _ => Simulator.journaled
  decoders := c.decoders
  executors := c.executors.map Executor.journaled

variable {c : Ceremony σ} {chain : Selector} {i : Nat} {e : Error}

theorem executor_journaled :
    c.journaled.executor chain = Executor.journaled chain <$> c.executor chain := by
  unfold executor Table.find journaled
  rw [Table.get?_map]
  cases c.executors.get? chain <;> rfl

/-! ## The root -/

/-- What is ready for a chain has been put together of what the ceremony has for it. -/
structure RootReady (c : Ceremony σ) (chain : Selector) (ready : ReadyRoot σ) : Prop where
  executor : c.executors.get? chain = some ready.executor
  metadata : c.proposal.chains.get? chain = some ready.metadata
  proof : ∃ encoder leaf, c.encoders.get? chain = some encoder ∧
    encoder.metadataLeaf ready.metadata = .ok leaf ∧
    c.tree.proof leaf = .ok ready.submission.proof
  root : ready.submission.root = c.root
  validUntil : ready.submission.validUntil = c.proposal.validUntil
  signatures : c.BySigner ready.submission.signatures

/-- What fails first when the root is put together for a chain. -/
inductive RootFault (c : Ceremony σ) (chain : Selector) : Error → Prop
  | noExecutor : c.executors.get? chain = none → RootFault c chain (.noExecutor chain)
  | unknownChain {x : Executor σ} : c.executors.get? chain = some x →
      c.proposal.chains.get? chain = none → RootFault c chain (.proposal (.unknownChain chain))
  | noEncoder {x : Executor σ} {m : Metadata} : c.executors.get? chain = some x →
      c.proposal.chains.get? chain = some m → c.encoders.get? chain = none →
      RootFault c chain (.noEncoder chain)
  | complaint {x : Executor σ} {m : Metadata} {encoder : Encoder} {complaint : Complaint} :
      c.executors.get? chain = some x → c.proposal.chains.get? chain = some m →
      c.encoders.get? chain = some encoder → encoder.metadataLeaf m = .error complaint →
      RootFault c chain (.collaborator complaint)
  | noProof {x : Executor σ} {m : Metadata} {encoder : Encoder} {leaf : Digest}
      {fault : Merkle.Fault} : c.executors.get? chain = some x →
      c.proposal.chains.get? chain = some m → c.encoders.get? chain = some encoder →
      encoder.metadataLeaf m = .ok leaf → c.tree.proof leaf = .error fault →
      RootFault c chain (.merkle fault)
  | unrecoverable {x : Executor σ} {m : Metadata} {encoder : Encoder} {leaf : Digest}
      {proof : List Digest} {before after : List Signature} {sig : Signature}
      {fault : SignatureError} : c.executors.get? chain = some x →
      c.proposal.chains.get? chain = some m → c.encoders.get? chain = some encoder →
      encoder.metadataLeaf m = .ok leaf → c.tree.proof leaf = .ok proof →
      c.proposal.signatures = before ++ sig :: after →
      (∀ earlier ∈ before, ∃ a, earlier.recover c.signingDigest = .ok a) →
      sig.recover c.signingDigest = .error fault → RootFault c chain (.signature fault)

theorem prepareRoot_eq_ok {ready : ReadyRoot σ} :
    c.prepareRoot chain = .ok ready ↔ c.RootReady chain ready := by
  simp only [prepareRoot, bind_eq_ok, executor_eq_ok, Commitment.metadata_eq_ok,
    Commitment.encoder_eq_ok, mapError_eq_ok, proofOf_eq_ok, sortedSignatures_eq_ok,
    Except.ok.injEq]
  constructor
  · rintro ⟨x, hx, m, hm, encoder, hencoder, leaf, hleaf, proof, hproof, sigs, hsigs, rfl⟩
    exact ⟨hx, hm, ⟨encoder, leaf, hencoder, hleaf, hproof⟩, rfl, rfl, hsigs⟩
  · obtain ⟨x, m, proof, root, validUntil, sigs⟩ := ready
    rintro ⟨hx, hm, ⟨encoder, leaf, hencoder, hleaf, hproof⟩, rfl, rfl, hsigs⟩
    exact ⟨x, hx, m, hm, encoder, hencoder, leaf, hleaf, proof, hproof, sigs, hsigs, rfl⟩

theorem rootFault_of_prepareRoot (h : c.prepareRoot chain = .error e) : c.RootFault chain e := by
  -- one thing is looked at after the other, and what was found is kept for the faults behind it
  rcases bind_eq_error.1 h with hx | ⟨x, hx, h⟩
  · obtain ⟨hnone, rfl⟩ := executor_eq_error.1 hx
    exact .noExecutor hnone
  rw [executor_eq_ok] at hx
  rcases bind_eq_error.1 h with hm | ⟨m, hm, h⟩
  · obtain ⟨hnone, rfl⟩ := Commitment.metadata_eq_error.1 hm
    exact .unknownChain hx hnone
  rw [Commitment.metadata_eq_ok] at hm
  rcases bind_eq_error.1 h with hencoder | ⟨encoder, hencoder, h⟩
  · obtain ⟨hnone, rfl⟩ := Commitment.encoder_eq_error.1 hencoder
    exact .noEncoder hx hm hnone
  rw [Commitment.encoder_eq_ok] at hencoder
  rcases bind_eq_error.1 h with hleaf | ⟨leaf, hleaf, h⟩
  · obtain ⟨complaint, hcomplaint, rfl⟩ := mapError_eq_error.1 hleaf
    exact .complaint hx hm hencoder hcomplaint
  rw [mapError_eq_ok] at hleaf
  rcases bind_eq_error.1 h with hproof | ⟨proof, hproof, h⟩
  · obtain ⟨fault, hfault, rfl⟩ := proofOf_eq_error.1 hproof
    exact .noProof hx hm hencoder hleaf hfault
  rw [proofOf_eq_ok] at hproof
  rcases bind_eq_error.1 h with hsigs | ⟨sigs, _, h⟩
  · obtain ⟨before, sig, after, fault, hsplit, hbefore, hfault, rfl⟩ :=
      sortedSignatures_eq_error_iff.1 hsigs
    exact .unrecoverable hx hm hencoder hleaf hproof hsplit hbefore hfault
  · cases h

/-- A fault shows behind all that is in place before it. -/
theorem RootFault.prepareRoot (h : c.RootFault chain e) : c.prepareRoot chain = .error e := by
  unfold Ceremony.prepareRoot
  cases h with
  | noExecutor hnone =>
    rw [executor_eq_error.2 ⟨hnone, rfl⟩]
    rfl
  | unknownChain hx hnone =>
    rw [executor_eq_ok.2 hx, ok_bind, Commitment.metadata_eq_error.2 ⟨hnone, rfl⟩]
    rfl
  | noEncoder hx hm hnone =>
    rw [executor_eq_ok.2 hx, ok_bind, Commitment.metadata_eq_ok.2 hm, ok_bind,
      Commitment.encoder_eq_error.2 ⟨hnone, rfl⟩]
    rfl
  | complaint hx hm hencoder hcomplaint =>
    rw [executor_eq_ok.2 hx, ok_bind, Commitment.metadata_eq_ok.2 hm, ok_bind,
      Commitment.encoder_eq_ok.2 hencoder, ok_bind, hcomplaint]
    rfl
  | noProof hx hm hencoder hleaf hfault =>
    rw [executor_eq_ok.2 hx, ok_bind, Commitment.metadata_eq_ok.2 hm, ok_bind,
      Commitment.encoder_eq_ok.2 hencoder, ok_bind, mapError_eq_ok.2 hleaf, ok_bind,
      proofOf_eq_error.2 ⟨_, hfault, rfl⟩]
    rfl
  | unrecoverable hx hm hencoder hleaf hproof hsplit hbefore hfault =>
    rw [executor_eq_ok.2 hx, ok_bind, Commitment.metadata_eq_ok.2 hm, ok_bind,
      Commitment.encoder_eq_ok.2 hencoder, ok_bind, mapError_eq_ok.2 hleaf, ok_bind,
      proofOf_eq_ok.2 hproof, ok_bind,
      sortedSignatures_eq_error_iff.2 ⟨_, _, _, _, hsplit, hbefore, hfault, rfl⟩]
    rfl

theorem prepareRoot_eq_error : c.prepareRoot chain = .error e ↔ c.RootFault chain e :=
  ⟨rootFault_of_prepareRoot, RootFault.prepareRoot⟩

/-- For the journal the same is put together, and the executor is made to keep it. -/
theorem prepareRoot_journaled : c.journaled.prepareRoot chain =
    (fun ready => ⟨ready.executor.journaled chain, ready.metadata, ready.submission⟩) <$>
      c.prepareRoot chain := by
  unfold prepareRoot
  -- all else is read off parts of the ceremony that the journal leaves alone
  simp only [executor_journaled, bind_map_left, map_bind, map_ok]
  rfl

/-! ## What becomes of a submission -/

/-- A step fails on every world, and leaves the world as it was. Nothing is handed to any
executor. -/
structure Refuses (plain : Step σ Receipt) (journaled : Step (Journaled σ) Receipt) (e : Error) :
    Prop where
  refused : ∀ w, outcome plain w = (.error e, w)
  unsent : ∀ j, outcome journaled j = (.error e, j)

/-- A step comes to what one act of an executor comes to, and leaves the world as the act does. One
entry is handed to executors. -/
structure Sends (plain : Step σ Receipt) (journaled : Step (Journaled σ) Receipt) (entry : Sent)
    (act : Act σ Receipt) : Prop where
  answered : ∀ w, outcome plain w =
    ((outcome act w).1.mapError .collaborator, (outcome act w).2)
  sent : ∀ j, outcome journaled j = ((outcome act j.world).1.mapError .collaborator,
    ⟨j.sent ++ [entry], (outcome act j.world).2⟩)

theorem RootFault.refuses (h : c.RootFault chain e) :
    Refuses (c.setRoot chain) (c.journaled.setRoot chain) e := by
  constructor
  · intro w
    unfold setRoot
    rw [outcome_lift_bind, h.prepareRoot]
  · intro j
    unfold setRoot
    rw [outcome_lift_bind, prepareRoot_journaled, h.prepareRoot]
    rfl

theorem RootReady.sends {ready : ReadyRoot σ} (h : c.RootReady chain ready) :
    Sends (c.setRoot chain) (c.journaled.setRoot chain)
      (.root chain ready.metadata ready.submission)
      (ready.executor.setRoot ready.metadata ready.submission) := by
  constructor
  · intro w
    unfold setRoot
    rw [outcome_lift_bind, prepareRoot_eq_ok.2 h]
    rfl
  · intro j
    unfold setRoot
    rw [outcome_lift_bind, prepareRoot_journaled, prepareRoot_eq_ok.2 h, map_ok]
    rfl

/-! ## Operations -/

/-- The operation at an index has been put together of what the ceremony has for it. -/
structure OperationReady (c : Ceremony σ) (i : Nat) (ready : ReadyOperation σ) : Prop where
  operation : c.proposal.operations[i]? = some ready.operation
  executor : c.executors.get? ready.operation.chain = some ready.executor
  metadata : c.proposal.chains.get? ready.operation.chain = some ready.metadata
  nonce : c.nonces[i]? = some ready.nonce
  proof : ∃ encoder leaf, c.encoders.get? ready.operation.chain = some encoder ∧
    encoder.operationLeaf ready.nonce ready.metadata ready.operation = .ok leaf ∧
    c.tree.proof leaf = .ok ready.proof

/-- What fails first when the operation at an index is put together. -/
inductive OperationFault (c : Ceremony σ) (i : Nat) : Error → Prop
  | noOperation : c.proposal.operations[i]? = none →
      OperationFault c i (.indexOutOfRange i c.proposal.operations.length)
  | noExecutor {op : Operation} : c.proposal.operations[i]? = some op →
      c.executors.get? op.chain = none → OperationFault c i (.noExecutor op.chain)
  | unknownChain {op : Operation} {x : Executor σ} : c.proposal.operations[i]? = some op →
      c.executors.get? op.chain = some x → c.proposal.chains.get? op.chain = none →
      OperationFault c i (.proposal (.unknownChain op.chain))
  | noNonce {op : Operation} {x : Executor σ} {m : Metadata} :
      c.proposal.operations[i]? = some op → c.executors.get? op.chain = some x →
      c.proposal.chains.get? op.chain = some m → c.nonces[i]? = none →
      OperationFault c i (.indexOutOfRange i c.nonces.length)
  | noEncoder {op : Operation} {x : Executor σ} {m : Metadata} {nonce : UInt64} :
      c.proposal.operations[i]? = some op → c.executors.get? op.chain = some x →
      c.proposal.chains.get? op.chain = some m → c.nonces[i]? = some nonce →
      c.encoders.get? op.chain = none → OperationFault c i (.noEncoder op.chain)
  | complaint {op : Operation} {x : Executor σ} {m : Metadata} {nonce : UInt64} {encoder : Encoder}
      {complaint : Complaint} : c.proposal.operations[i]? = some op →
      c.executors.get? op.chain = some x → c.proposal.chains.get? op.chain = some m →
      c.nonces[i]? = some nonce → c.encoders.get? op.chain = some encoder →
      encoder.operationLeaf nonce m op = .error complaint →
      OperationFault c i (.collaborator complaint)
  | noProof {op : Operation} {x : Executor σ} {m : Metadata} {nonce : UInt64} {encoder : Encoder}
      {leaf : Digest} {fault : Merkle.Fault} : c.proposal.operations[i]? = some op →
      c.executors.get? op.chain = some x → c.proposal.chains.get? op.chain = some m →
      c.nonces[i]? = some nonce → c.encoders.get? op.chain = some encoder →
      encoder.operationLeaf nonce m op = .ok leaf → c.tree.proof leaf = .error fault →
      OperationFault c i (.merkle fault)

theorem prepareOperation_eq_ok {ready : ReadyOperation σ} :
    c.prepareOperation i = .ok ready ↔ c.OperationReady i ready := by
  simp only [prepareOperation, bind_eq_ok, operationAt_eq_ok, executor_eq_ok,
    Commitment.metadata_eq_ok, nonceAt_eq_ok, Commitment.encoder_eq_ok, mapError_eq_ok,
    proofOf_eq_ok, Except.ok.injEq]
  constructor
  · rintro ⟨op, hop, x, hx, m, hm, nonce, hnonce, encoder, hencoder, leaf, hleaf, proof, hproof,
      rfl⟩
    exact ⟨hop, hx, hm, hnonce, ⟨encoder, leaf, hencoder, hleaf, hproof⟩⟩
  · obtain ⟨x, m, nonce, proof, op⟩ := ready
    rintro ⟨hop, hx, hm, hnonce, ⟨encoder, leaf, hencoder, hleaf, hproof⟩⟩
    exact ⟨op, hop, x, hx, m, hm, nonce, hnonce, encoder, hencoder, leaf, hleaf, proof, hproof, rfl⟩

theorem operationFault_of_prepareOperation (h : c.prepareOperation i = .error e) :
    c.OperationFault i e := by
  rcases bind_eq_error.1 h with hop | ⟨op, hop, h⟩
  · obtain ⟨hnone, rfl⟩ := operationAt_eq_error.1 hop
    exact .noOperation hnone
  rw [operationAt_eq_ok] at hop
  rcases bind_eq_error.1 h with hx | ⟨x, hx, h⟩
  · obtain ⟨hnone, rfl⟩ := executor_eq_error.1 hx
    exact .noExecutor hop hnone
  rw [executor_eq_ok] at hx
  rcases bind_eq_error.1 h with hm | ⟨m, hm, h⟩
  · obtain ⟨hnone, rfl⟩ := Commitment.metadata_eq_error.1 hm
    exact .unknownChain hop hx hnone
  rw [Commitment.metadata_eq_ok] at hm
  rcases bind_eq_error.1 h with hnonce | ⟨nonce, hnonce, h⟩
  · obtain ⟨hnone, rfl⟩ := nonceAt_eq_error.1 hnonce
    exact .noNonce hop hx hm hnone
  rw [nonceAt_eq_ok] at hnonce
  rcases bind_eq_error.1 h with hencoder | ⟨encoder, hencoder, h⟩
  · obtain ⟨hnone, rfl⟩ := Commitment.encoder_eq_error.1 hencoder
    exact .noEncoder hop hx hm hnonce hnone
  rw [Commitment.encoder_eq_ok] at hencoder
  rcases bind_eq_error.1 h with hleaf | ⟨leaf, hleaf, h⟩
  · obtain ⟨complaint, hcomplaint, rfl⟩ := mapError_eq_error.1 hleaf
    exact .complaint hop hx hm hnonce hencoder hcomplaint
  rw [mapError_eq_ok] at hleaf
  rcases bind_eq_error.1 h with hproof | ⟨proof, _, h⟩
  · obtain ⟨fault, hfault, rfl⟩ := proofOf_eq_error.1 hproof
    exact .noProof hop hx hm hnonce hencoder hleaf hfault
  · cases h

theorem OperationFault.prepareOperation (h : c.OperationFault i e) :
    c.prepareOperation i = .error e := by
  unfold Ceremony.prepareOperation
  cases h with
  | noOperation hnone =>
    rw [operationAt_eq_error.2 ⟨hnone, rfl⟩]
    rfl
  | noExecutor hop hnone =>
    rw [operationAt_eq_ok.2 hop, ok_bind, executor_eq_error.2 ⟨hnone, rfl⟩]
    rfl
  | unknownChain hop hx hnone =>
    rw [operationAt_eq_ok.2 hop, ok_bind, executor_eq_ok.2 hx, ok_bind,
      Commitment.metadata_eq_error.2 ⟨hnone, rfl⟩]
    rfl
  | noNonce hop hx hm hnone =>
    rw [operationAt_eq_ok.2 hop, ok_bind, executor_eq_ok.2 hx, ok_bind,
      Commitment.metadata_eq_ok.2 hm, ok_bind, nonceAt_eq_error.2 ⟨hnone, rfl⟩]
    rfl
  | noEncoder hop hx hm hnonce hnone =>
    rw [operationAt_eq_ok.2 hop, ok_bind, executor_eq_ok.2 hx, ok_bind,
      Commitment.metadata_eq_ok.2 hm, ok_bind, nonceAt_eq_ok.2 hnonce, ok_bind,
      Commitment.encoder_eq_error.2 ⟨hnone, rfl⟩]
    rfl
  | complaint hop hx hm hnonce hencoder hcomplaint =>
    rw [operationAt_eq_ok.2 hop, ok_bind, executor_eq_ok.2 hx, ok_bind,
      Commitment.metadata_eq_ok.2 hm, ok_bind, nonceAt_eq_ok.2 hnonce, ok_bind,
      Commitment.encoder_eq_ok.2 hencoder, ok_bind, hcomplaint]
    rfl
  | noProof hop hx hm hnonce hencoder hleaf hfault =>
    rw [operationAt_eq_ok.2 hop, ok_bind, executor_eq_ok.2 hx, ok_bind,
      Commitment.metadata_eq_ok.2 hm, ok_bind, nonceAt_eq_ok.2 hnonce, ok_bind,
      Commitment.encoder_eq_ok.2 hencoder, ok_bind, mapError_eq_ok.2 hleaf, ok_bind,
      proofOf_eq_error.2 ⟨_, hfault, rfl⟩]
    rfl

theorem prepareOperation_eq_error : c.prepareOperation i = .error e ↔ c.OperationFault i e :=
  ⟨operationFault_of_prepareOperation, OperationFault.prepareOperation⟩

theorem prepareOperation_journaled : c.journaled.prepareOperation i =
    (fun ready => ⟨ready.executor.journaled ready.operation.chain, ready.metadata, ready.nonce,
      ready.proof, ready.operation⟩) <$> c.prepareOperation i := by
  unfold prepareOperation
  simp only [executor_journaled, bind_map_left, map_bind, map_ok]
  rfl

theorem OperationFault.refuses (h : c.OperationFault i e) :
    Refuses (c.execute i) (c.journaled.execute i) e := by
  constructor
  · intro w
    unfold execute
    rw [outcome_lift_bind, h.prepareOperation]
  · intro j
    unfold execute
    rw [outcome_lift_bind, prepareOperation_journaled, h.prepareOperation]
    rfl

theorem OperationReady.sends {ready : ReadyOperation σ} (h : c.OperationReady i ready) :
    Sends (c.execute i) (c.journaled.execute i)
      (.operation ready.operation.chain ready.metadata ready.nonce ready.proof ready.operation)
      (ready.executor.execute ready.metadata ready.nonce ready.proof ready.operation) := by
  constructor
  · intro w
    unfold execute
    rw [outcome_lift_bind, prepareOperation_eq_ok.2 h]
    rfl
  · intro j
    unfold execute
    rw [outcome_lift_bind, prepareOperation_journaled, prepareOperation_eq_ok.2 h, map_ok]
    rfl

/-! ## Started ceremonies -/

/-- A ceremony that was started knows the chain of each of its operations, and has a nonce for the
operation. -/
theorem Becomes.lookups {p : Proposal} {encoders : Encoders} {c₀ : Ceremony σ}
    (started : start p encoders = .ok c₀) (later : Becomes c₀ c) {op : Operation}
    (hop : p.operations[i]? = some op) :
    ∃ m nonce, c.proposal.chains.get? op.chain = some m ∧ c.nonces[i]? = some nonce := by
  have hkeeps := later.keeps
  obtain ⟨sigs, hp⟩ := hkeeps.proposal
  obtain ⟨m, nonce, hm, hnonce, _⟩ := (Proposal.nonces_spec (nonces_of_start started)).2 i op hop
  rw [proposal_of_start started] at hp
  exact ⟨m, nonce, by rw [hp]; exact hm, by rw [hkeeps.nonces]; exact hnonce⟩

theorem Becomes.operations {p : Proposal} {encoders : Encoders} {c₀ : Ceremony σ}
    (started : start p encoders = .ok c₀) (later : Becomes c₀ c) :
    c.proposal.operations = p.operations := by
  obtain ⟨sigs, hp⟩ := later.keeps.proposal
  rw [hp, proposal_of_start started]

/-- Once started, a ceremony only ever takes an index to be out of the range of the operations. -/
theorem OperationFault.out_of_range {p : Proposal} {encoders : Encoders} {c₀ : Ceremony σ}
    (started : start p encoders = .ok c₀) (later : Becomes c₀ c) {index length : Nat}
    (h : c.OperationFault i (.indexOutOfRange index length)) :
    index = i ∧ length = p.operations.length ∧ p.operations.length ≤ i := by
  have hops := later.operations started
  cases h with
  | noOperation hnone =>
    rw [hops] at hnone
    exact ⟨rfl, by rw [hops], List.getElem?_eq_none_iff.1 hnone⟩
  | noNonce hop hx hm hnone =>
    rw [hops] at hop
    obtain ⟨_, nonce, _, hnonce⟩ := later.lookups started hop
    rw [hnone] at hnonce
    cases hnonce

/-- For each chain and each index there is either something that fails first, or something that has
been put together. In the first case a submission comes to that error and nothing is handed to any
executor; in the second one thing is handed to the one executor, whose answer is passed on. In a
ceremony that was started, whatever it has become since, the chain and the nonce of an operation are
always found, and an index is called out of range only if there are that many operations or
fewer. -/
theorem submissions_are_sent_once_or_first_fault_is_named (c : Ceremony σ) :
    (∀ chain,
      ((∃ ready, c.RootReady chain ready) ↔ ¬∃ e, c.RootFault chain e) ∧
      (∀ e, c.RootFault chain e → Refuses (c.setRoot chain) (c.journaled.setRoot chain) e) ∧
      ∀ ready, c.RootReady chain ready → Sends (c.setRoot chain) (c.journaled.setRoot chain)
        (.root chain ready.metadata ready.submission)
        (ready.executor.setRoot ready.metadata ready.submission)) ∧
    (∀ i,
      ((∃ ready, c.OperationReady i ready) ↔ ¬∃ e, c.OperationFault i e) ∧
      (∀ e, c.OperationFault i e → Refuses (c.execute i) (c.journaled.execute i) e) ∧
      ∀ ready, c.OperationReady i ready → Sends (c.execute i) (c.journaled.execute i)
        (.operation ready.operation.chain ready.metadata ready.nonce ready.proof ready.operation)
        (ready.executor.execute ready.metadata ready.nonce ready.proof ready.operation)) ∧
    ∀ (p : Proposal) (encoders : Encoders) (c₀ : Ceremony σ),
      start p encoders = .ok c₀ → Becomes c₀ c →
      (∀ (i : Nat) op, p.operations[i]? = some op → c.operationAt i = .ok op ∧
        (∃ m, Commitment.metadata c.proposal op.chain = .ok m) ∧ ∃ nonce, c.nonceAt i = .ok nonce) ∧
      ∀ i index length, c.OperationFault i (.indexOutOfRange index length) →
        index = i ∧ length = p.operations.length ∧ p.operations.length ≤ i := by
  refine ⟨fun chain => ⟨?_, fun e h => h.refuses, fun ready h => h.sends⟩,
    fun i => ⟨?_, fun e h => h.refuses, fun ready h => h.sends⟩, fun p encoders c₀ started later =>
    ⟨fun i op hop => ?_, fun i index length h => h.out_of_range started later⟩⟩
  · simp only [← prepareRoot_eq_ok, ← prepareRoot_eq_error]
    cases c.prepareRoot chain <;> simp
  · simp only [← prepareOperation_eq_ok, ← prepareOperation_eq_error]
    cases c.prepareOperation i <;> simp
  · obtain ⟨m, nonce, hm, hnonce⟩ := later.lookups started hop
    rw [← later.operations started] at hop
    exact ⟨operationAt_eq_ok.2 hop, ⟨m, Commitment.metadata_eq_ok.2 hm⟩,
      nonce, nonceAt_eq_ok.2 hnonce⟩

/-- Of three operations the one at index three is out of range, and the one at index two is sent
once. A signature that leads to nobody keeps the root back. -/
theorem operation_is_sent_and_root_kept_back : ∃ c d : Ceremony Unit,
    start Sample.proposal Sample.encoders = .ok c ∧ Becomes c d ∧
      Refuses (d.execute 3) (d.journaled.execute 3) (.indexOutOfRange 3 3) ∧
      Refuses (d.setRoot Sample.one) (d.journaled.setRoot Sample.one)
        (.signature Signature.malformed) ∧
      d.operationAt 2 = .ok (Sample.call Sample.one) ∧
      ∃ proof, Sends (d.execute 2) (d.journaled.execute 2)
        (.operation Sample.one ⟨7, "0x01", none⟩ 8 proof (Sample.call Sample.one))
        (Sample.willing.execute ⟨7, "0x01", none⟩ 8 proof (Sample.call Sample.one)) := by
  obtain ⟨c, hc⟩ : ∃ c : Ceremony Unit, start Sample.proposal Sample.encoders = .ok c := ⟨_, rfl⟩
  have later : Becomes c ((c.addSignature Sample.signature).withExecutors Sample.executors) :=
    .executors Sample.executors (.signed Sample.signature .same)
  obtain ⟨hroots, hoperations, hstarted⟩ := submissions_are_sent_once_or_first_fault_is_named
    ((c.addSignature Sample.signature).withExecutors Sample.executors)
  have hcommitted := later.keeps.committed (committed_of_start hc)
  have hnonces : c.nonces = [7, 0, 8] := (Except.ok.inj (nonces_of_start hc)).symm
  obtain ⟨k, _, rfl⟩ := start_eq_ok.1 hc
  have hvalid := Proposal.validateAt_eq_ok.1 Sample.valid
  refine ⟨_, _, hc, later, (hoperations 3).2.1 _ (.noOperation rfl), (hroots Sample.one).2.1 _ ?_,
    ((hstarted _ _ _ hc later).1 2 _ rfl).1, ?_⟩
  · obtain ⟨m, e, leaf, proof, hm, he, hleaf, hproof, _⟩ :=
      hcommitted.chain_proof ⟨hvalid.1, hvalid.2, hvalid.3, hvalid.4, hvalid.5, hvalid.6⟩
        (show Sample.one ∈ Sample.proposal.selectors by decide)
    have hsplit : Sample.proposal.signatures ++ [Sample.signature] = [] ++ Sample.signature :: [] :=
      rfl
    exact .unrecoverable (x := Sample.willing) rfl hm he hleaf (proofOf_eq_ok.1 hproof) hsplit
      (by simp) rfl
  · obtain ⟨m, e, nonce, leaf, proof, hm, he, hnonce, _, hleaf, hproof, _⟩ :=
      hcommitted.operation_proof ⟨hvalid.1, hvalid.2, hvalid.3, hvalid.4, hvalid.5, hvalid.6⟩
        (show Sample.proposal.operations[2]? = some (Sample.call Sample.one) from rfl)
    obtain rfl : m = ⟨7, "0x01", none⟩ := (Option.some.inj hm).symm
    have hlast : k.nonces[2]? = some 8 := congrArg (·[2]?) hnonces
    obtain rfl : nonce = 8 := Option.some.inj (hnonce.symm.trans hlast)
    exact ⟨proof, (hoperations 2).2.2 ⟨Sample.willing, _, 8, proof, _⟩
      ⟨rfl, rfl, hm, hnonce, e, leaf, he, hleaf, proofOf_eq_ok.1 hproof⟩⟩

end Ceremony

end Quorate
