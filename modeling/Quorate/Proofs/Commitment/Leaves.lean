/-
The leaves of a commitment: one for each chain and one for each operation with its nonce. Encoding a
chain or an operation again, with the encoders and the nonces of the commitment, gives a leaf that
the tree was built over, and so one with a proof.
-/
import Quorate.Commitment
import Quorate.Proofs.Merkle.Inclusion
import Quorate.Proofs.Proposal.Numbering

namespace Quorate.Commitment

/-! ## What is looked up -/

theorem encoder_eq_ok {encoders : Encoders} {chain : Selector} {e : Encoder} :
    encoder encoders chain = .ok e ↔ encoders.get? chain = some e := Table.find_eq_ok

theorem encoder_eq_error {encoders : Encoders} {chain : Selector} {err : Error} :
    encoder encoders chain = .error err ↔ encoders.get? chain = none ∧ err = .noEncoder chain :=
  Table.find_eq_error

theorem metadata_eq_ok {p : Proposal} {chain : Selector} {m : Metadata} :
    metadata p chain = .ok m ↔ p.chains.get? chain = some m :=
  mapError_eq_ok.trans Proposal.metadata_eq_ok

theorem metadata_eq_error {p : Proposal} {chain : Selector} {err : Error} :
    metadata p chain = .error err ↔
      p.chains.get? chain = none ∧ err = .proposal (.unknownChain chain) := by
  simp only [metadata, mapError_eq_error, Proposal.metadata_eq_error]
  constructor
  · rintro ⟨_, ⟨hnone, rfl⟩, rfl⟩; exact ⟨hnone, rfl⟩
  · rintro ⟨hnone, rfl⟩; exact ⟨_, ⟨hnone, rfl⟩, rfl⟩

/-- Once its operations are numbered, each of them is on a chain of the proposal. -/
theorem mem_selectors_of_nonces {p : Proposal} {nonces : List UInt64} (h : p.nonces = .ok nonces)
    {op : Operation} (hop : op ∈ p.operations) : op.chain ∈ p.selectors := by
  obtain ⟨i, hi⟩ := List.getElem?_of_mem hop
  obtain ⟨m, _, hm, _, _⟩ := (Proposal.nonces_spec h).2 i op hi
  exact Table.mem_keys.2 ⟨m, hm⟩

/-! ## One leaf -/

theorem metadataLeaf_eq_ok {encoders : Encoders} {p : Proposal} {chain : Selector} {leaf : Digest} :
    metadataLeaf encoders p chain = .ok leaf ↔ ∃ e m, encoders.get? chain = some e ∧
      p.chains.get? chain = some m ∧ e.metadataLeaf m = .ok leaf := by
  simp only [metadataLeaf, bind_eq_ok, encoder_eq_ok, metadata_eq_ok, mapError_eq_ok]
  constructor
  · rintro ⟨e, he, m, hm, h⟩; exact ⟨e, m, he, hm, h⟩
  · rintro ⟨e, m, he, hm, h⟩; exact ⟨e, he, m, hm, h⟩

theorem operationLeaf_eq_ok {encoders : Encoders} {p : Proposal} {nonce : UInt64} {op : Operation}
    {leaf : Digest} :
    operationLeaf encoders p nonce op = .ok leaf ↔ ∃ e m, encoders.get? op.chain = some e ∧
      p.chains.get? op.chain = some m ∧ e.operationLeaf nonce m op = .ok leaf := by
  simp only [operationLeaf, bind_eq_ok, encoder_eq_ok, metadata_eq_ok, mapError_eq_ok]
  constructor
  · rintro ⟨e, he, m, hm, h⟩; exact ⟨e, m, he, hm, h⟩
  · rintro ⟨e, m, he, hm, h⟩; exact ⟨e, he, m, hm, h⟩

/-! ## All leaves -/

/-- A commitment is made in four steps, and fails where one of the first three does. -/
theorem ofProposal_eq_ok {encoders : Encoders} {p : Proposal} {k : Commitment} :
    ofProposal encoders p = .ok k ↔ ∃ chainLeaves nonces leaves,
      metadataLeaves encoders p = .ok chainLeaves ∧ p.nonces = .ok nonces ∧
      operationLeaves encoders p nonces = .ok leaves ∧
      k = ⟨.ofLeaves (ascending (chainLeaves ++ leaves)), nonces⟩ := by
  simp only [ofProposal, bind_eq_ok, mapError_eq_ok, Except.ok.injEq]
  constructor
  · rintro ⟨cs, hcs, ns, hns, ls, hls, rfl⟩; exact ⟨cs, ns, ls, hcs, hns, hls, rfl⟩
  · rintro ⟨cs, ns, ls, hcs, hns, hls, rfl⟩; exact ⟨cs, hcs, ns, hns, ls, hls, rfl⟩

theorem mem_ascending {leaves : List Digest} {d : Digest} : d ∈ ascending leaves ↔ d ∈ leaves :=
  (List.mergeSort_perm leaves _).mem_iff

theorem length_ascending (leaves : List Digest) : (ascending leaves).length = leaves.length :=
  (List.mergeSort_perm leaves _).length_eq

theorem ascending_replicate (n : Nat) (d : Digest) :
    ascending (List.replicate n d) = List.replicate n d :=
  List.perm_replicate.1 (List.mergeSort_perm _ _)

/-- What a tree is built over: as many leaves as there are chains and operations, among them the leaf
of each chain and the leaf of each operation with its nonce. -/
structure Covers (encoders : Encoders) (p : Proposal) (k : Commitment) (leaves : List Digest) :
    Prop where
  tree : k.tree = .ofLeaves leaves
  length : leaves.length = p.selectors.length + p.operations.length
  chains : ∀ chain ∈ p.selectors, ∃ leaf ∈ leaves, metadataLeaf encoders p chain = .ok leaf
  operations : ∀ (i : Nat) op nonce, p.operations[i]? = some op → k.nonces[i]? = some nonce →
    ∃ leaf ∈ leaves, operationLeaf encoders p nonce op = .ok leaf

theorem exists_covers {encoders : Encoders} {p : Proposal} {k : Commitment}
    (h : ofProposal encoders p = .ok k) : ∃ leaves, Covers encoders p k leaves := by
  obtain ⟨chainLeaves, nonces, opLeaves, hc, hn, ho, rfl⟩ := ofProposal_eq_ok.1 h
  -- operations and nonces are equally many, so that pairing them loses none
  have hlen := (Proposal.nonces_spec hn).1
  refine ⟨ascending (chainLeaves ++ opLeaves), rfl, ?_, fun chain hchain => ?_, ?_⟩
  · rw [length_ascending, List.length_append, ← length_of_mapM_eq_ok hc, ← length_of_mapM_eq_ok ho,
      List.length_zip, hlen, Nat.min_self]
  · obtain ⟨leaf, hleaf, heq⟩ := mem_of_mapM_eq_ok hc hchain
    exact ⟨leaf, mem_ascending.2 (List.mem_append_left _ hleaf), heq⟩
  · intro i op nonce hop hnonce
    have hmem : (op, nonce) ∈ p.operations.zip nonces := by
      refine List.mem_of_getElem? (i := i) ?_
      rw [List.getElem?_zip_eq_some]
      exact ⟨hop, hnonce⟩
    obtain ⟨leaf, hleaf, heq⟩ := mem_of_mapM_eq_ok ho hmem
    exact ⟨leaf, mem_ascending.2 (List.mem_append_right _ hleaf), heq⟩

end Quorate.Commitment
