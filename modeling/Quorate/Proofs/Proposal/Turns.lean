/-
Turns: the indices of the operations on a chain, in the order of the proposal. An operation has as
many turns of its chain before it as there are earlier operations on the chain. Indices are in turn
when on every chain they are the first of its turns, whatever lies between them on other chains.
-/
import Quorate.Proofs.Proposal.Numbering

namespace Quorate.Proposal

/-- Whether there is an operation at an index and it is on a chain. -/
def onChain (p : Proposal) (chain : Selector) (i : Nat) : Bool :=
  p.operations[i]?.any (·.chain = chain)

/-- The indices of the operations on a chain. -/
def turns (p : Proposal) (chain : Selector) : List Nat :=
  (List.range p.operations.length).filter (p.onChain chain)

theorem onChain_iff {p : Proposal} {chain : Selector} {i : Nat} :
    p.onChain chain i = true ↔ ∃ op, p.operations[i]? = some op ∧ op.chain = chain := by
  unfold onChain
  rw [Option.any_eq_true]
  simp only [decide_eq_true_eq]

theorem onChain_of_getElem? {p : Proposal} {i : Nat} {op : Operation}
    (h : p.operations[i]? = some op) : p.onChain op.chain i = true := onChain_iff.2 ⟨op, h, rfl⟩

theorem turns_pairwise (p : Proposal) (chain : Selector) : (p.turns chain).Pairwise (· < ·) :=
  List.pairwise_lt_range.filter _

theorem turns_nodup (p : Proposal) (chain : Selector) : (p.turns chain).Nodup :=
  (p.turns_pairwise chain).imp Nat.ne_of_lt

/-- There are as many turns before an index as there are operations on the chain before it. -/
theorem length_turns_before (p : Proposal) (chain : Selector) :
    ∀ {i : Nat}, i ≤ p.operations.length →
      ((List.range i).filter (p.onChain chain)).length = countOn chain (p.operations.take i)
  | 0, _ => by simp
  | i + 1, h => by
    have hop := List.getElem?_eq_getElem (l := p.operations) h
    rw [List.range_succ, List.filter_append, List.length_append, List.take_add_one, countOn_append,
      length_turns_before p chain (Nat.le_of_succ_le h), hop, Option.toList_some,
      countOn_singleton, List.filter_singleton]
    unfold onChain
    rw [hop]
    by_cases hc : p.operations[i].chain = chain <;> simp [hc]

/-- The turn of an operation comes after those of the earlier operations on its chain. -/
theorem getElem?_turns {p : Proposal} {i : Nat} {op : Operation} (h : p.operations[i]? = some op) :
    (p.turns op.chain)[countOn op.chain (p.operations.take i)]? = some i := by
  obtain ⟨hi, _⟩ := List.getElem?_eq_some_iff.1 h
  obtain ⟨k, hk⟩ := Nat.exists_eq_add_of_lt hi
  -- the indices before, the index itself, and those behind
  have hsplit : List.range p.operations.length =
      List.range i ++ i :: (List.range k).map fun j => i + (j + 1) := by
    rw [hk, Nat.add_assoc, List.range_add, List.range_succ_eq_map, List.map_cons, List.map_map]
    rfl
  unfold turns
  rw [hsplit, List.filter_append, List.filter_cons, if_pos (onChain_of_getElem? h),
    ← length_turns_before p op.chain (Nat.le_of_lt hi)]
  simp

/-- The turn of a rank is the operation of that rank on the chain. -/
theorem getElem?_turns_eq_some {p : Proposal} {chain : Selector} {rank i : Nat} :
    (p.turns chain)[rank]? = some i ↔ ∃ op, p.operations[i]? = some op ∧ op.chain = chain ∧
      countOn chain (p.operations.take i) = rank := by
  constructor
  · intro h
    obtain ⟨hlt, hget⟩ := List.getElem?_eq_some_iff.1 h
    have hon : p.onChain chain i = true := (List.mem_filter.1 (hget ▸ List.getElem_mem hlt)).2
    obtain ⟨op, hop, rfl⟩ := onChain_iff.1 hon
    have hturn := (getElem?_turns hop).trans h.symm
    exact ⟨op, hop, rfl, ((List.getElem?_inj hlt (p.turns_nodup op.chain)).1 hturn.symm).symm⟩
  · rintro ⟨op, hop, rfl, rfl⟩
    exact getElem?_turns hop

/-- The nonce at a turn: the starting count of the chain and one more for each turn before. -/
theorem nonce_of_turn {p : Proposal} {nonces : List UInt64} (h : p.nonces = .ok nonces)
    {chain : Selector} {rank i : Nat} (hturn : (p.turns chain)[rank]? = some i) :
    ∃ m nonce, p.chains.get? chain = some m ∧ nonces[i]? = some nonce ∧
      nonce.toNat = m.startingCount.toNat + rank := by
  obtain ⟨op, hop, rfl, rfl⟩ := getElem?_turns_eq_some.1 hturn
  exact (nonces_spec h).2 i op hop

theorem length_turns (p : Proposal) (chain : Selector) :
    (p.turns chain).length = (p.operations.filter (·.chain = chain)).length := by
  rw [← List.countP_eq_length_filter, turns, length_turns_before p chain (Nat.le_refl _),
    List.take_length, countOn]

theorem filterMap_getElem? {α : Type} :
    ∀ l : List α, (List.range l.length).filterMap (l[·]?) = l
  | [] => rfl
  | a :: l => by
    rw [List.length_cons, List.range_succ_eq_map, List.filterMap_cons, List.filterMap_map]
    exact congrArg (a :: ·) (filterMap_getElem? l)

/-- The operations at the turns of a chain are the operations on the chain. -/
theorem filterMap_turns (p : Proposal) (chain : Selector) :
    (p.turns chain).filterMap (p.operations[·]?) = p.operations.filter (·.chain = chain) := by
  have hops := congrArg (List.filter (·.chain = chain)) (filterMap_getElem? p.operations)
  rw [List.filter_filterMap] at hops
  unfold turns
  rw [List.filterMap_filter, ← hops]
  congr 1
  funext i
  unfold onChain
  cases p.operations[i]? with
  | none => rfl
  | some op => simp [Option.filter]

/-! ## In turn -/

/-- On every chain the indices are its first turns. -/
def InTurn (p : Proposal) (done : List Nat) : Prop :=
  ∀ chain, done.filter (p.onChain chain) <+: p.turns chain

/-- Whether the operation at an index is the next on its chain after those at the indices `done`. -/
def Next (p : Proposal) (done : List Nat) (i : Nat) : Prop :=
  ∃ op, p.operations[i]? = some op ∧
    countOn op.chain (p.operations.take i) = (done.filter (p.onChain op.chain)).length

theorem inTurn_nil (p : Proposal) : p.InTurn [] := fun _ => List.nil_prefix

/-- Indices in turn stay so with the next one behind them. -/
theorem InTurn.snoc {p : Proposal} {done : List Nat} (h : p.InTurn done) {i : Nat}
    (hnext : p.Next done i) : p.InTurn (done ++ [i]) := by
  intro chain
  rw [List.filter_append, List.filter_cons, List.filter_nil]
  by_cases hi : p.onChain chain i = true
  · obtain ⟨op, hop, rfl⟩ := onChain_iff.1 hi
    obtain ⟨op', hop', hlen⟩ := hnext
    obtain rfl : op = op' := Option.some.inj (hop.symm.trans hop')
    have hturn := getElem?_turns hop
    obtain ⟨later, hlater⟩ := h op.chain
    rw [hlen, ← hlater, List.getElem?_append_right (Nat.le_refl _), Nat.sub_self] at hturn
    -- what is left of the turns begins with the index
    obtain ⟨later', rfl⟩ : ∃ later', later = i :: later' := by
      cases later with
      | nil => cases hturn
      | cons j later' => cases hturn; exact ⟨later', rfl⟩
    rw [if_pos hi, ← hlater]
    exact ⟨later', by rw [List.append_assoc]; rfl⟩
  · rw [if_neg hi, List.append_nil]
    exact h chain

/-- Of indices in turn each is the next after those before it. -/
theorem InTurn.next {p : Proposal} {done rest : List Nat} {i : Nat} {op : Operation}
    (h : p.InTurn (done ++ i :: rest)) (hop : p.operations[i]? = some op) : p.Next done i := by
  refine ⟨op, hop, ?_⟩
  have hpre := h op.chain
  rw [List.filter_append, List.filter_cons, if_pos (onChain_of_getElem? hop)] at hpre
  have hturn : (p.turns op.chain)[(done.filter (p.onChain op.chain)).length]? = some i := by
    obtain ⟨later, hlater⟩ := hpre
    rw [← hlater, List.append_assoc, List.getElem?_append_right (Nat.le_refl _), Nat.sub_self]
    rfl
  obtain ⟨hlt, _⟩ := List.getElem?_eq_some_iff.1 hturn
  exact ((List.getElem?_inj hlt (p.turns_nodup op.chain)).1 (hturn.trans (getElem?_turns hop).symm)).symm

/-! ## Orders of all operations -/

/-- Whether the operations at two indices are on one chain. -/
def sameChain (p : Proposal) (i j : Nat) : Bool :=
  p.operations[i]?.any fun op => p.onChain op.chain j

theorem sameChain_iff {p : Proposal} {i j : Nat} :
    p.sameChain i j = true ↔ ∃ chain, p.onChain chain i = true ∧ p.onChain chain j = true := by
  unfold sameChain
  rw [Option.any_eq_true]
  constructor
  · rintro ⟨op, hop, hj⟩
    exact ⟨op.chain, onChain_of_getElem? hop, hj⟩
  · rintro ⟨chain, hi, hj⟩
    obtain ⟨op, hop, rfl⟩ := onChain_iff.1 hi
    exact ⟨op, hop, hj⟩

/-- No operation comes before an earlier operation of its chain. -/
def KeepsOrder (p : Proposal) (calls : List Nat) : Prop :=
  calls.Pairwise fun i j => p.sameChain i j = true → ¬ j < i

instance (p : Proposal) (calls : List Nat) : Decidable (p.KeepsOrder calls) :=
  inferInstanceAs (Decidable (calls.Pairwise _))

theorem InTurn.keepsOrder {p : Proposal} {calls : List Nat} (h : p.InTurn calls) :
    p.KeepsOrder calls := by
  unfold KeepsOrder
  rw [List.pairwise_iff_forall_sublist]
  intro i j hsub hsame
  obtain ⟨chain, hi, hj⟩ := sameChain_iff.1 hsame
  have hpair : (calls.filter (p.onChain chain)).Pairwise (· < ·) :=
    (p.turns_pairwise chain).sublist (h chain).sublist
  rw [List.pairwise_filter, List.pairwise_iff_forall_sublist] at hpair
  exact Nat.lt_asymm (hpair hsub hi hj)

/-- When each index comes once and the order is kept, the indices of a chain are all its turns. -/
theorem KeepsOrder.inTurn {p : Proposal} {calls : List Nat} (h : p.KeepsOrder calls)
    (hall : calls.Perm (List.range p.operations.length)) : p.InTurn calls := by
  intro chain
  have hperm : (calls.filter (p.onChain chain)).Perm (p.turns chain) := hall.filter _
  have hle : (calls.filter (p.onChain chain)).Pairwise (· ≤ ·) := by
    rw [List.pairwise_filter]
    exact h.imp fun hij hi hj => Nat.le_of_not_lt (hij (sameChain_iff.2 ⟨chain, hi, hj⟩))
  have heq := hperm.eq_of_pairwise (fun _ _ _ _ => Nat.le_antisymm) hle
    ((p.turns_pairwise chain).imp Nat.le_of_lt)
  exact ⟨[], by rw [heq, List.append_nil]⟩

end Quorate.Proposal
