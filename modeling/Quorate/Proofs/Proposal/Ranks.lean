/-
Ranks: the rank of an operation is the number of earlier operations on its chain. Operations and
their ranks do not depend on how the operations of different chains are interleaved, only on their
order on each chain.
-/
import Quorate.Proofs.Proposal.Turns
import Mathlib.Data.List.Forall2

namespace Quorate.Proposal

/-! ## Ranks on a chain -/

/-- On one chain the ranks go up by one. -/
theorem filter_rankedAfter (chain : Selector) : ∀ done ops : List Operation,
    (rankedAfter done ops).filter (·.1.chain = chain) =
      (ops.filter (·.chain = chain)).zipIdx (countOn chain done)
  | _, [] => rfl
  | done, op :: ops => by
    have hrest := filter_rankedAfter chain (done ++ [op]) ops
    rw [countOn_append, countOn_singleton] at hrest
    rw [rankedAfter, List.filter_cons, List.filter_cons]
    by_cases hc : op.chain = chain
    · subst hc
      rw [if_pos rfl] at hrest
      rw [if_pos (decide_eq_true rfl), if_pos (decide_eq_true rfl), List.zipIdx_cons, hrest]
    · rw [if_neg hc, Nat.add_zero] at hrest
      rw [if_neg (by simpa using hc), if_neg (by simpa using hc), hrest]

theorem filter_ranked (p : Proposal) (chain : Selector) :
    p.ranked.filter (·.1.chain = chain) = (p.operations.filter (·.chain = chain)).zipIdx :=
  filter_rankedAfter chain [] p.operations

/-- The ranks on a chain are those below the number of its operations. -/
theorem exists_ranked_iff {p : Proposal} {chain : Selector} {rank : Nat} :
    (∃ op, (op, rank) ∈ p.ranked ∧ op.chain = chain) ↔ rank < countOn chain p.operations := by
  have hmem : ∀ op, (op, rank) ∈ p.ranked ∧ op.chain = chain ↔
      (p.operations.filter (·.chain = chain))[rank]? = some op := by
    intro op
    rw [← List.mk_mem_zipIdx_iff_getElem?, ← filter_ranked, List.mem_filter, decide_eq_true_eq]
  simp only [hmem, countOn, List.countP_eq_length_filter]
  constructor
  · rintro ⟨op, hop⟩
    exact (List.getElem?_eq_some_iff.1 hop).1
  · intro hlt
    exact ⟨_, List.getElem?_eq_getElem hlt⟩

/-! ## Interleavings -/

/-- Two lists are the same up to order if for each key they hold the same entries. -/
theorem perm_of_filter_eq {α κ : Type} [DecidableEq κ] (key : α → κ) {l l' : List α}
    (h : ∀ k, l.filter (key · = k) = l'.filter (key · = k)) : l.Perm l' := by
  classical
  rw [List.perm_iff_count]
  intro a
  have hcount := congrArg (List.count a) (h (key a))
  rwa [List.count_filter (by simp), List.count_filter (by simp)] at hcount

/-- Two proposals that expire at the same time, know the same of each chain, and have the same
operations on each chain in the same order. Nothing else need be the same. -/
structure AlikeByChain (p q : Proposal) : Prop where
  validUntil : p.validUntil = q.validUntil
  metadata : ∀ chain, p.chains.get? chain = q.chains.get? chain
  operations : ∀ chain,
    p.operations.filter (·.chain = chain) = q.operations.filter (·.chain = chain)

namespace AlikeByChain

variable {p q : Proposal} (h : AlikeByChain p q)
include h

theorem symm : AlikeByChain q p :=
  ⟨h.validUntil.symm, fun chain => (h.metadata chain).symm, fun chain => (h.operations chain).symm⟩

theorem chains_eq : p.chains = q.chains := Table.ext_get? h.metadata

theorem ranked_perm : p.ranked.Perm q.ranked := by
  apply perm_of_filter_eq (fun e => e.1.chain)
  intro chain
  rw [filter_ranked, filter_ranked, h.operations]

theorem length_turns_eq (chain : Selector) : (p.turns chain).length = (q.turns chain).length := by
  rw [length_turns, length_turns, h.operations]

end AlikeByChain

end Quorate.Proposal
