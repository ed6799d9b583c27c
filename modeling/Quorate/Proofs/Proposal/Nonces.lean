/-
Nonces: the operations of a proposal can be numbered when each is on a known chain and no chain has
more of them than it has nonces left from its starting count. The nonces of a chain are then the
numbers from that count on, one for each of its operations and none left out, so no nonce is used
twice on a chain. Otherwise the first operation without a nonce is at fault. The last nonce that 64
bits can hold may be used; the one after it is not there.
-/
import Quorate.Proofs.Proposal.Ranks
import Quorate.Proofs.Sample

namespace Quorate.Proposal

/-! ## Operations with a nonce -/

/-- An operation behind others has a nonce: its chain is known and has one left. -/
def HasNonce (p : Proposal) (before : List Operation) (op : Operation) : Prop :=
  ∃ m, p.chains.get? op.chain = some m ∧
    m.startingCount.toNat + countOn op.chain before < UInt64.size

/-- What keeps an operation behind others from having a nonce. -/
inductive LacksNonce (p : Proposal) (before : List Operation) (op : Operation) : Fault → Prop
  | unknownChain : p.chains.get? op.chain = none →
      LacksNonce p before op (.unknownChain op.chain)
  | countOverflow {m : Metadata} : p.chains.get? op.chain = some m →
      UInt64.size ≤ m.startingCount.toNat + countOn op.chain before →
      LacksNonce p before op (.countOverflow op.chain)

theorem exists_nonce?_iff {n : Nat} : (∃ nonce, nonce? n = some nonce) ↔ n < UInt64.size := by
  rw [← Option.isSome_iff_exists, ← Option.ne_none_iff_isSome, Ne, nonce?_eq_none, Nat.not_le]

theorem exists_rankedNonce_iff {p : Proposal} {op : Operation} {rank : Nat} :
    (∃ nonce, p.rankedNonce (op, rank) = .ok nonce) ↔
      ∃ m, p.chains.get? op.chain = some m ∧ m.startingCount.toNat + rank < UInt64.size := by
  simp only [rankedNonce_eq_ok, rankedNonce?, Option.bind_eq_some_iff, ← exists_nonce?_iff]
  constructor
  · rintro ⟨nonce, m, hm, hnonce⟩
    exact ⟨m, hm, nonce, hnonce⟩
  · rintro ⟨m, hm, nonce, hnonce⟩
    exact ⟨nonce, m, hm, hnonce⟩

theorem rankedNonce_eq_error {p : Proposal} {before : List Operation} {op : Operation}
    {fault : Fault} : p.rankedNonce (op, countOn op.chain before) = .error fault ↔
      LacksNonce p before op fault := by
  unfold rankedNonce
  constructor
  · intro h
    rcases bind_eq_error.1 h with h | ⟨m, hm, h⟩
    · obtain ⟨hnone, rfl⟩ := metadata_eq_error.1 h
      exact .unknownChain hnone
    · rw [metadata_eq_ok] at hm
      split at h
      · cases h
      · rename_i hnone
        cases h
        exact .countOverflow hm (nonce?_eq_none.1 hnone)
  · intro h
    cases h with
    | unknownChain hnone => exact bind_eq_error.2 (.inl (metadata_eq_error.2 ⟨hnone, rfl⟩))
    | countOverflow hm hover =>
      refine bind_eq_error.2 (.inr ⟨_, metadata_eq_ok.2 hm, ?_⟩)
      rw [nonce?_eq_none.2 hover]

/-! ## Enough nonces for every chain -/

/-- The operations are numbered exactly if each is on a known chain and the nonces of each chain
last for all of its operations. -/
theorem exists_nonces_iff {p : Proposal} : (∃ nonces, p.nonces = .ok nonces) ↔
    (∀ op ∈ p.operations, ∃ m, p.chains.get? op.chain = some m) ∧
      ∀ chain m count, p.chains.get? chain = some m → p.counts.get? chain = some count →
        m.startingCount.toNat + count ≤ UInt64.size := by
  rw [nonces_eq_mapM, exists_mapM_iff]
  constructor
  · intro hall
    have hfit : ∀ op rank, (op, rank) ∈ p.ranked → ∃ m, p.chains.get? op.chain = some m ∧
        m.startingCount.toNat + rank < UInt64.size :=
      fun op rank he => exists_rankedNonce_iff.1 (hall (op, rank) he)
    constructor
    · intro op hop
      rw [← map_fst_ranked, List.mem_map] at hop
      obtain ⟨⟨op, rank⟩, he, rfl⟩ := hop
      obtain ⟨m, hm, _⟩ := hfit op rank he
      exact ⟨m, hm⟩
    · intro chain m count hm hcount
      obtain ⟨hpos, hcount⟩ := get?_counts_eq_some.1 hcount
      -- the last operation of the chain is the one whose nonce is the greatest
      obtain ⟨op, he, rfl⟩ := exists_ranked_iff.2
        (show count - 1 < countOn chain p.operations by omega)
      obtain ⟨m', hm', hlt⟩ := hfit op _ he
      obtain rfl : m = m' := Option.some.inj (hm.symm.trans hm')
      omega
  · rintro ⟨hknown, hlast⟩ ⟨op, rank⟩ he
    have hop : op ∈ p.operations := by
      rw [← map_fst_ranked]
      exact List.mem_map_of_mem he
    obtain ⟨m, hm⟩ := hknown op hop
    have hrank : rank < countOn op.chain p.operations := exists_ranked_iff.1 ⟨op, he, rfl⟩
    have hle := hlast op.chain m _ hm (get?_counts_eq_some.2 ⟨by omega, rfl⟩)
    exact exists_rankedNonce_iff.2 ⟨m, hm, by omega⟩

/-! ## The nonces of a chain -/

/-- The nonces of the operations on a chain, in order. -/
def noncesOn (p : Proposal) (nonces : List UInt64) (chain : Selector) : List Nat :=
  ((p.operations.zip nonces).filter (·.1.chain = chain)).map (·.2.toNat)

theorem map_filter_zip_ranked {p : Proposal} {chain : Selector} {m : Metadata}
    (hm : p.chains.get? chain = some m) {es : List (Operation × Nat)} {nonces : List UInt64}
    (h : List.Forall₂ (fun e nonce => p.rankedNonce? e = some nonce) es nonces) :
    (((es.map (·.1)).zip nonces).filter (·.1.chain = chain)).map (·.2.toNat) =
      (es.filter (·.1.chain = chain)).map fun e => m.startingCount.toNat + e.2 := by
  induction h with
  | nil => rfl
  | @cons e nonce es nonces hnonce _ ih =>
    rw [List.map_cons, List.zip_cons_cons, List.filter_cons, List.filter_cons]
    by_cases hc : e.1.chain = chain
    · subst hc
      rw [rankedNonce?, hm, Option.bind_some, nonce?_eq_some] at hnonce
      simp only [decide_true, if_true, List.map_cons, ih, hnonce]
    · simp only [hc, decide_false, if_false, Bool.false_eq_true, ih]

/-- The nonces of a chain are the numbers from its starting count on. -/
theorem noncesOn_eq_range' {p : Proposal} {nonces : List UInt64} (h : p.nonces = .ok nonces)
    {chain : Selector} {m : Metadata} (hm : p.chains.get? chain = some m) :
    p.noncesOn nonces chain =
      List.range' m.startingCount.toNat (countOn chain p.operations) := by
  have hzip := map_filter_zip_ranked hm (nonces_eq_ok.1 h)
  rw [map_fst_ranked, filter_ranked] at hzip
  rw [noncesOn, hzip, ← Function.comp_def (m.startingCount.toNat + ·) Prod.snd, ← List.map_map,
    List.zipIdx_map_snd, List.map_add_range', countOn, List.countP_eq_length_filter]
  rfl

/-- A list names nothing twice if it names nothing twice for any one key. -/
theorem nodup_of_filter {α κ : Type} [DecidableEq κ] (key : α → κ) {l : List α}
    (h : ∀ k, (l.filter (key · = k)).Nodup) : l.Nodup := by
  classical
  rw [List.nodup_iff_count_le_one]
  intro a
  have hcount := List.nodup_iff_count_le_one.1 (h (key a)) a
  rwa [List.count_filter (by simp)] at hcount

/-- No nonce is used twice on a chain. -/
theorem nodup_nonces {p : Proposal} {nonces : List UInt64} (h : p.nonces = .ok nonces) :
    ((p.operations.zip nonces).map fun e => (e.1.chain, e.2)).Nodup := by
  refine nodup_of_filter (·.1) fun chain => ?_
  rw [List.filter_map]
  cases hm : p.chains.get? chain with
  | some m =>
    refine List.Nodup.of_map (·.2.toNat) ?_
    have hrange : (p.noncesOn nonces chain).Nodup :=
      noncesOn_eq_range' h hm ▸ List.nodup_range'
    rw [List.map_map]
    exact hrange
  | none =>
    -- there is no operation on a chain that is not known
    have hnone : (p.operations.zip nonces).filter (·.1.chain = chain) = [] := by
      rw [List.filter_eq_nil_iff]
      rintro ⟨op, nonce⟩ he hop
      obtain ⟨m, hm'⟩ := (exists_nonces_iff.1 ⟨nonces, h⟩).1 op (List.of_mem_zip he).1
      rw [decide_eq_true_eq] at hop
      rw [hop, hm] at hm'
      cases hm'
    exact hnone ▸ List.nodup_nil

/-! ## Numbers for all, or the first that has none -/

/-- What there is to the nonces of a proposal. -/
structure Numbered (p : Proposal) (nonces : List UInt64) : Prop where
  length : nonces.length = p.operations.length
  nonce_eq : ∀ i op, p.operations[i]? = some op → ∃ m nonce, p.chains.get? op.chain = some m ∧
    nonces[i]? = some nonce ∧
    nonce.toNat = m.startingCount.toNat + countOn op.chain (p.operations.take i)
  distinct : ((p.operations.zip nonces).map fun e => (e.1.chain, e.2)).Nodup
  contiguous : ∀ chain m count, p.chains.get? chain = some m → p.counts.get? chain = some count →
    p.noncesOn nonces chain = List.range' m.startingCount.toNat count

theorem numbered {p : Proposal} {nonces : List UInt64} (h : p.nonces = .ok nonces) :
    p.Numbered nonces where
  length := (nonces_spec h).1
  nonce_eq := (nonces_spec h).2
  distinct := nodup_nonces h
  contiguous chain m count hm hcount := by
    rw [noncesOn_eq_range' h hm, (get?_counts_eq_some.1 hcount).2]

/-- The first operation without a nonce is at fault. -/
theorem nonces_eq_error {p : Proposal} {fault : Fault} : p.nonces = .error fault ↔
    ∃ i op, p.operations[i]? = some op ∧
      (∀ j < i, ∀ earlier, p.operations[j]? = some earlier →
        p.HasNonce (p.operations.take j) earlier) ∧
      p.LacksNonce (p.operations.take i) op fault := by
  rw [nonces_eq_mapM, mapM_eq_error_iff_getElem?]
  simp only [getElem?_ranked, Option.map_eq_some_iff]
  constructor
  · rintro ⟨i, _, ⟨op, hop, rfl⟩, hbefore, hfault⟩
    refine ⟨i, op, hop, fun j hj earlier hearlier => ?_, rankedNonce_eq_error.1 hfault⟩
    exact exists_rankedNonce_iff.1 (hbefore j hj _ ⟨earlier, hearlier, rfl⟩)
  · rintro ⟨i, op, hop, hbefore, hlacks⟩
    refine ⟨i, _, ⟨op, hop, rfl⟩, ?_, rankedNonce_eq_error.2 hlacks⟩
    rintro j hj _ ⟨earlier, hearlier, rfl⟩
    exact exists_rankedNonce_iff.2 (hbefore j hj earlier hearlier)

/-- The operations of a proposal are numbered exactly if each is on a known chain and the nonces of
each chain last for all of its operations. Then the nonces of a chain are the numbers from its
starting count on, in order, and none is used twice. Otherwise the first operation whose chain is
not known or has no nonce left is at fault. -/
theorem operations_are_numbered_or_first_without_nonce_is_named (p : Proposal) :
    ((∃ nonces, p.nonces = .ok nonces) ↔
        (∀ op ∈ p.operations, ∃ m, p.chains.get? op.chain = some m) ∧
        ∀ chain m count, p.chains.get? chain = some m → p.counts.get? chain = some count →
          m.startingCount.toNat + count ≤ UInt64.size) ∧
      (∀ nonces, p.nonces = .ok nonces → p.Numbered nonces) ∧
      ∀ fault, p.nonces = .error fault ↔ ∃ i op, p.operations[i]? = some op ∧
        (∀ j < i, ∀ earlier, p.operations[j]? = some earlier →
          p.HasNonce (p.operations.take j) earlier) ∧
        p.LacksNonce (p.operations.take i) op fault :=
  ⟨exists_nonces_iff, fun _ => numbered, fun _ => nonces_eq_error⟩

/-- A proposal whose first chain has one nonce left. -/
def brimful (ops : List Operation) : Proposal :=
  { Sample.proposal with
    chains := Table.ofList
      [(Sample.one, ⟨0xFFFFFFFFFFFFFFFF, "0x01", none⟩), (Sample.two, ⟨0, "0x02", none⟩)]
    operations := ops }

/-- The last nonce serves one operation. Another one on the chain is at fault, and not the one on a
chain that is not known behind it. -/
theorem last_nonce_serves_once :
    (brimful [Sample.call Sample.one, Sample.call Sample.two]).Numbered [0xFFFFFFFFFFFFFFFF, 0] ∧
      (brimful [Sample.call Sample.one, Sample.call Sample.two, Sample.call Sample.one,
        Sample.call ⟨3⟩]).nonces = .error (.countOverflow Sample.one) := by
  refine ⟨(operations_are_numbered_or_first_without_nonce_is_named _).2.1 _ rfl,
    ((operations_are_numbered_or_first_without_nonce_is_named _).2.2 _).2 ?_⟩
  refine ⟨2, Sample.call Sample.one, rfl, fun j hj earlier hearlier => ?_,
    .countOverflow rfl (by decide)⟩
  obtain rfl | rfl : j = 0 ∨ j = 1 := by omega
  · cases hearlier
    exact ⟨_, rfl, by decide⟩
  · cases hearlier
    exact ⟨_, rfl, by decide⟩

end Quorate.Proposal
