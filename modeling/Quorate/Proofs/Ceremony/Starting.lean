/-
Starting: a ceremony starts if every chain has a leaf, every operation a nonce, and every operation
with its nonce a leaf, and it is looked for them in this order. Whatever the proposal, the first of
them that is missing is the error. By the time the operations are encoded, nothing that is looked up
for them can be missing any more, and only an encoder can complain.
-/
import Quorate.Proofs.Ceremony.Committed
import Quorate.Proofs.Commitment.Binding
import Quorate.Proofs.Sample

namespace Quorate

namespace Commitment

variable {encoders : Encoders} {p : Proposal} {err : Error}

/-! ## Leaves -/

/-- The encoder of a chain makes a leaf of what the proposal knows of the chain. -/
def ChainLeaf (encoders : Encoders) (p : Proposal) (chain : Selector) (leaf : Digest) : Prop :=
  ∃ encoder m, encoders.get? chain = some encoder ∧ p.chains.get? chain = some m ∧
    encoder.metadataLeaf m = .ok leaf

/-- The encoder of an operation's chain makes a leaf of the operation with a nonce. -/
def OperationLeaf (encoders : Encoders) (p : Proposal) (e : Operation × UInt64) (leaf : Digest) :
    Prop :=
  ∃ encoder m, encoders.get? e.1.chain = some encoder ∧ p.chains.get? e.1.chain = some m ∧
    encoder.operationLeaf e.2 m e.1 = .ok leaf

theorem metadataLeaves_eq_ok {leaves : List Digest} : metadataLeaves encoders p = .ok leaves ↔
    List.Forall₂ (ChainLeaf encoders p) p.selectors leaves := by
  simp only [metadataLeaves, mapM_eq_ok, metadataLeaf_eq_ok]
  rfl

theorem operationLeaves_eq_ok_iff {nonces : List UInt64} {leaves : List Digest} :
    operationLeaves encoders p nonces = .ok leaves ↔
      List.Forall₂ (OperationLeaf encoders p) (p.operations.zip nonces) leaves := by
  simp only [operationLeaves, mapM_eq_ok, operationLeaf_eq_ok]
  rfl

/-- Each chain of the proposal has a leaf. -/
def ChainsEncoded (encoders : Encoders) (p : Proposal) : Prop :=
  ∀ chain ∈ p.selectors, ∃ leaf, ChainLeaf encoders p chain leaf

theorem exists_metadataLeaves_iff :
    (∃ leaves, metadataLeaves encoders p = .ok leaves) ↔ ChainsEncoded encoders p := by
  simp only [metadataLeaves, exists_mapM_iff, metadataLeaf_eq_ok]
  rfl

/-- Once the chains are encoded and the operations numbered, the encoder of each operation and what
the proposal knows of its chain are there. -/
theorem ChainsEncoded.lookups (h : ChainsEncoded encoders p) {nonces : List UInt64}
    (hnonces : p.nonces = .ok nonces) {op : Operation} (hop : op ∈ p.operations) :
    ∃ encoder m, encoders.get? op.chain = some encoder ∧ p.chains.get? op.chain = some m := by
  obtain ⟨_, encoder, m, hencoder, hm, _⟩ := h _ (mem_selectors_of_nonces hnonces hop)
  exact ⟨encoder, m, hencoder, hm⟩

/-! ## Faults -/

/-- What fails first when a proposal is committed to. -/
inductive Fault (encoders : Encoders) (p : Proposal) : Error → Prop
  | noEncoder {chain : Selector} : chain ∈ p.selectors →
      (∀ lesser ∈ p.selectors, compare lesser chain = .lt →
        ∃ leaf, ChainLeaf encoders p lesser leaf) →
      encoders.get? chain = none → Fault encoders p (.noEncoder chain)
  | chain {chain : Selector} {m : Metadata} {encoder : Encoder} {complaint : Complaint} :
      p.chains.get? chain = some m →
      (∀ lesser ∈ p.selectors, compare lesser chain = .lt →
        ∃ leaf, ChainLeaf encoders p lesser leaf) →
      encoders.get? chain = some encoder → encoder.metadataLeaf m = .error complaint →
      Fault encoders p (.collaborator complaint)
  | nonces {fault : Proposal.Fault} : ChainsEncoded encoders p → p.nonces = .error fault →
      Fault encoders p (.proposal fault)
  | operation {nonces : List UInt64} {i : Nat} {op : Operation} {nonce : UInt64} {m : Metadata}
      {encoder : Encoder} {complaint : Complaint} :
      ChainsEncoded encoders p → p.nonces = .ok nonces → p.operations[i]? = some op →
      nonces[i]? = some nonce →
      (∀ j < i, ∀ e, (p.operations.zip nonces)[j]? = some e →
        ∃ leaf, OperationLeaf encoders p e leaf) →
      p.chains.get? op.chain = some m → encoders.get? op.chain = some encoder →
      encoder.operationLeaf nonce m op = .error complaint →
      Fault encoders p (.collaborator complaint)

/-- A chain of the proposal has no leaf for want of an encoder, or because the encoder complains. -/
theorem metadataLeaf_eq_error {chain : Selector} {m : Metadata}
    (hm : p.chains.get? chain = some m) : metadataLeaf encoders p chain = .error err ↔
      (encoders.get? chain = none ∧ err = .noEncoder chain) ∨
      ∃ encoder complaint, encoders.get? chain = some encoder ∧
        encoder.metadataLeaf m = .error complaint ∧ err = .collaborator complaint := by
  unfold metadataLeaf
  rw [bind_eq_error, encoder_eq_error]
  refine or_congr Iff.rfl ?_
  simp only [encoder_eq_ok, metadata_eq_ok.2 hm, ok_bind, mapError_eq_error]
  constructor
  · rintro ⟨encoder, hencoder, complaint, hcomplaint, rfl⟩
    exact ⟨encoder, complaint, hencoder, hcomplaint, rfl⟩
  · rintro ⟨encoder, complaint, hencoder, hcomplaint, rfl⟩
    exact ⟨encoder, hencoder, complaint, hcomplaint, rfl⟩

/-- With encoder and chain at hand an operation has no leaf only if the encoder complains. -/
theorem operationLeaf_eq_error {nonce : UInt64} {op : Operation} {encoder : Encoder} {m : Metadata}
    (hencoder : encoders.get? op.chain = some encoder) (hm : p.chains.get? op.chain = some m) :
    operationLeaf encoders p nonce op = .error err ↔
      ∃ complaint, encoder.operationLeaf nonce m op = .error complaint ∧
        .collaborator complaint = err := by
  unfold operationLeaf
  rw [encoder_eq_ok.2 hencoder, ok_bind, metadata_eq_ok.2 hm, ok_bind, mapError_eq_error]

/-- The first chain without a leaf is the least one. -/
theorem metadataLeaves_eq_error : metadataLeaves encoders p = .error err ↔
    ∃ chain m, p.chains.get? chain = some m ∧
      (∀ lesser ∈ p.selectors, compare lesser chain = .lt →
        ∃ leaf, ChainLeaf encoders p lesser leaf) ∧
      metadataLeaf encoders p chain = .error err := by
  have hascending : p.selectors.Pairwise fun a b => compare a b = .lt := Table.keys_ascending _
  unfold metadataLeaves
  rw [mapM_eq_error_of_ascending_key id hascending]
  simp only [metadataLeaf_eq_ok]
  constructor
  · rintro ⟨chain, hmem, hless, herr⟩
    obtain ⟨m, hm⟩ := Table.mem_keys.1 hmem
    exact ⟨chain, m, hm, hless, herr⟩
  · rintro ⟨chain, m, hm, hless, herr⟩
    exact ⟨chain, Table.mem_keys.2 ⟨m, hm⟩, hless, herr⟩

theorem operationLeaves_eq_error {nonces : List UInt64} :
    operationLeaves encoders p nonces = .error err ↔
    ∃ (i : Nat) (op : Operation) (nonce : UInt64), p.operations[i]? = some op ∧
      nonces[i]? = some nonce ∧
      (∀ j < i, ∀ e, (p.operations.zip nonces)[j]? = some e →
        ∃ leaf, OperationLeaf encoders p e leaf) ∧
      operationLeaf encoders p nonce op = .error err := by
  unfold operationLeaves
  rw [mapM_eq_error_iff_getElem?]
  simp only [operationLeaf_eq_ok]
  constructor
  · rintro ⟨i, ⟨op, nonce⟩, hi, hbefore, herr⟩
    obtain ⟨hop, hnonce⟩ := List.getElem?_zip_eq_some.1 hi
    exact ⟨i, op, nonce, hop, hnonce, hbefore, herr⟩
  · rintro ⟨i, op, nonce, hop, hnonce, hbefore, herr⟩
    exact ⟨i, (op, nonce), List.getElem?_zip_eq_some.2 ⟨hop, hnonce⟩, hbefore, herr⟩

theorem fault_of_ofProposal (h : ofProposal encoders p = .error err) : Fault encoders p err := by
  rcases bind_eq_error.1 h with hchains | ⟨chainLeaves, hchains, h⟩
  · obtain ⟨chain, m, hm, hless, hleaf⟩ := metadataLeaves_eq_error.1 hchains
    rcases (metadataLeaf_eq_error hm).1 hleaf with
      ⟨hnone, rfl⟩ | ⟨encoder, complaint, hencoder, hcomplaint, rfl⟩
    · exact .noEncoder (Table.mem_keys.2 ⟨m, hm⟩) hless hnone
    · exact .chain hm hless hencoder hcomplaint
  have hencoded := exists_metadataLeaves_iff.1 ⟨chainLeaves, hchains⟩
  rcases bind_eq_error.1 h with hnonces | ⟨nonces, hnonces, h⟩
  · obtain ⟨fault, hfault, rfl⟩ := mapError_eq_error.1 hnonces
    exact .nonces hencoded hfault
  rw [mapError_eq_ok] at hnonces
  rcases bind_eq_error.1 h with hoperations | ⟨_, _, h⟩
  · obtain ⟨i, op, nonce, hop, hnonce, hbefore, hleaf⟩ := operationLeaves_eq_error.1 hoperations
    obtain ⟨encoder, m, hencoder, hm⟩ :=
      hencoded.lookups hnonces (List.mem_of_getElem? hop)
    obtain ⟨complaint, hcomplaint, rfl⟩ := (operationLeaf_eq_error hencoder hm).1 hleaf
    exact .operation hencoded hnonces hop hnonce hbefore hm hencoder hcomplaint
  · cases h

theorem Fault.ofProposal (h : Fault encoders p err) : ofProposal encoders p = .error err := by
  unfold Commitment.ofProposal
  cases h with
  | noEncoder hmem hless hnone =>
    obtain ⟨m, hm⟩ := Table.mem_keys.1 hmem
    rw [metadataLeaves_eq_error.2
      ⟨_, m, hm, hless, (metadataLeaf_eq_error hm).2 (.inl ⟨hnone, rfl⟩)⟩]
    rfl
  | chain hm hless hencoder hcomplaint =>
    rw [metadataLeaves_eq_error.2
      ⟨_, _, hm, hless, (metadataLeaf_eq_error hm).2 (.inr ⟨_, _, hencoder, hcomplaint, rfl⟩)⟩]
    rfl
  | nonces hencoded hfault =>
    obtain ⟨chainLeaves, hchains⟩ := exists_metadataLeaves_iff.2 hencoded
    rw [hchains, ok_bind, hfault]
    rfl
  | operation hencoded hnonces hop hnonce hbefore hm hencoder hcomplaint =>
    obtain ⟨chainLeaves, hchains⟩ := exists_metadataLeaves_iff.2 hencoded
    rw [hchains, ok_bind, mapError_eq_ok.2 hnonces, ok_bind, operationLeaves_eq_error.2 ⟨_, _, _,
      hop, hnonce, hbefore, (operationLeaf_eq_error hencoder hm).2 ⟨_, hcomplaint, rfl⟩⟩]
    rfl

theorem ofProposal_eq_error : ofProposal encoders p = .error err ↔ Fault encoders p err :=
  ⟨fault_of_ofProposal, Fault.ofProposal⟩

end Commitment

namespace Ceremony

open Commitment (ChainLeaf OperationLeaf ChainsEncoded Fault Ascending)

variable {σ : Type}

/-- What a ceremony starts as: its tree is built over one leaf for each chain and one for each
operation with its nonce, in ascending order, and each operation has a nonce. -/
structure Started (encoders : Encoders) (p : Proposal) (c : Ceremony σ) : Prop where
  proposal_eq : c.proposal = p
  encoders_eq : c.encoders = encoders
  nonces : p.nonces = .ok c.nonces
  aligned : c.nonces.length = p.operations.length
  leaves : ∃ chainLeaves operationLeaves leaves,
    List.Forall₂ (ChainLeaf encoders p) p.selectors chainLeaves ∧
    List.Forall₂ (OperationLeaf encoders p) (p.operations.zip c.nonces) operationLeaves ∧
    leaves.Perm (chainLeaves ++ operationLeaves) ∧ Ascending leaves ∧ c.tree = .ofLeaves leaves

theorem started_of_start {p : Proposal} {encoders : Encoders} {c : Ceremony σ}
    (h : start p encoders = .ok c) : Started encoders p c := by
  have hnonces := nonces_of_start h
  obtain ⟨k, hk, rfl⟩ := start_eq_ok.1 h
  obtain ⟨chainLeaves, nonces, opLeaves, hchains, _, hops, rfl⟩ := Commitment.ofProposal_eq_ok.1 hk
  exact ⟨rfl, rfl, hnonces, (Proposal.nonces_spec hnonces).1, chainLeaves, opLeaves, _,
    Commitment.metadataLeaves_eq_ok.1 hchains, Commitment.operationLeaves_eq_ok_iff.1 hops,
    List.mergeSort_perm .., Commitment.ascending_ascending _, rfl⟩

theorem start_eq_error {p : Proposal} {encoders : Encoders} {e : Error} :
    (start p encoders : Except Error (Ceremony σ)) = .error e ↔ Fault encoders p e := by
  rw [← Commitment.ofProposal_eq_error, start, bind_eq_error]
  simp

/-- A ceremony over any proposal, valid or not, and with any encoders starts as it should, or there
is something that fails first, and that is the error. Once the chains are encoded and the operations
numbered, no encoder and no chain of an operation is missing. -/
theorem start_is_made_or_first_fault_is_named (p : Proposal) (encoders : Encoders) :
    (∀ e, (start p encoders : Except Error (Ceremony σ)) = .error e ↔ Fault encoders p e) ∧
      (∀ c : Ceremony σ, start p encoders = .ok c → Started encoders p c) ∧
      ∀ nonces, ChainsEncoded encoders p → p.nonces = .ok nonces → ∀ op ∈ p.operations,
        (∃ encoder, Commitment.encoder encoders op.chain = .ok encoder) ∧
          ∃ m, Commitment.metadata p op.chain = .ok m := by
  refine ⟨fun e => start_eq_error, fun c => started_of_start,
    fun nonces hencoded hnonces op hop => ?_⟩
  obtain ⟨encoder, m, hencoder, hm⟩ := hencoded.lookups hnonces hop
  exact ⟨⟨encoder, Commitment.encoder_eq_ok.2 hencoder⟩, m, Commitment.metadata_eq_ok.2 hm⟩

/-- An operation is on an unknown chain. Without encoders the least chain is the error, since chains
come before operations; with them it is the unknown chain. -/
theorem missing_encoder_comes_before_unknown_chain : ∃ p : Proposal,
    p.operations.map (·.chain) = [⟨3⟩] ∧
      (start p ∅ : Except Error (Ceremony Unit)) = .error (.noEncoder Sample.one) ∧
      (start p Sample.encoders : Except Error (Ceremony Unit)) =
        .error (.proposal (.unknownChain ⟨3⟩)) ∧
      ∃ c : Ceremony Unit, start Sample.proposal Sample.encoders = .ok c ∧
        Started Sample.encoders Sample.proposal c := by
  refine ⟨{ Sample.proposal with operations := [Sample.call ⟨3⟩] }, rfl,
    ((start_is_made_or_first_fault_is_named _ _).1 _).2 (.noEncoder (by decide) ?_ rfl),
    ((start_is_made_or_first_fault_is_named _ _).1 _).2 (.nonces ?_ rfl), _, rfl,
    (start_is_made_or_first_fault_is_named _ _).2.1 _ rfl⟩
  · have hnone : ∀ lesser ∈ [Sample.one, Sample.two], compare lesser Sample.one ≠ .lt := by decide
    exact fun lesser hmem hlt => absurd hlt (hnone lesser hmem)
  · have hchains : ∀ chain ∈ [Sample.one, Sample.two],
        ∃ leaf, ChainLeaf Sample.encoders Sample.proposal chain leaf := by
      simp only [List.forall_mem_cons, List.not_mem_nil, false_imp_iff, implies_true, and_true]
      exact ⟨⟨_, _, _, rfl, rfl, rfl⟩, ⟨_, _, _, rfl, rfl, rfl⟩⟩
    exact hchains

end Ceremony

end Quorate
