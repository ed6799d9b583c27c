/-
Numbering: the nonce of an operation is the starting count of its chain and its rank, the number of
earlier operations on the chain. While operations are numbered, the marks that are kept for the
chains say the same of the operations behind: the next nonce of a chain, or that none is left. So
the operations are numbered one by one, each by its rank.
-/
import Quorate.Proofs.Outcome
import Quorate.Proofs.Table
import Quorate.Proposal.Basic
import Mathlib.Data.List.Basic

namespace Quorate.Proposal

/-- The number of operations of a list that are on a chain. -/
def countOn (chain : Selector) (ops : List Operation) : Nat := ops.countP (·.chain = chain)

@[simp] theorem countOn_nil (chain : Selector) : countOn chain [] = 0 := rfl

@[simp] theorem countOn_append (chain : Selector) (ops ops' : List Operation) :
    countOn chain (ops ++ ops') = countOn chain ops + countOn chain ops' := List.countP_append

theorem countOn_singleton (chain : Selector) (op : Operation) :
    countOn chain [op] = if op.chain = chain then 1 else 0 := by
  simp [countOn]

theorem metadata_eq_ok {p : Proposal} {chain : Selector} {m : Metadata} :
    p.metadata chain = .ok m ↔ p.chains.get? chain = some m := Table.find_eq_ok

theorem metadata_eq_error {p : Proposal} {chain : Selector} {fault : Fault} :
    p.metadata chain = .error fault ↔
      p.chains.get? chain = none ∧ fault = .unknownChain chain := Table.find_eq_error

/-- Counting operations one by one adds to what was counted of a chain before, and makes no entry
for a chain without operations. -/
theorem get?_counted (chain : Selector) : ∀ (ops : List Operation) (t : Table Selector Nat),
    (ops.foldl (fun t op => t.insert op.chain ((t.get? op.chain).getD 0 + 1)) t).get? chain =
      if countOn chain ops = 0 then t.get? chain
      else some ((t.get? chain).getD 0 + countOn chain ops)
  | [], t => rfl
  | op :: ops, t => by
    have hcount : countOn chain (op :: ops) = countOn chain [op] + countOn chain ops :=
      countOn_append chain [op] ops
    rw [List.foldl_cons, get?_counted chain ops, Table.get?_insert, hcount, countOn_singleton]
    by_cases hc : chain = op.chain
    · subst hc
      have hpos : ¬ 1 + countOn op.chain ops = 0 := by omega
      simp only [if_true, Option.getD_some, if_neg hpos, ← Nat.add_assoc]
      split
      · rename_i hnone
        rw [hnone]
      · rfl
    · rw [if_neg hc, if_neg (Ne.symm hc), Nat.zero_add]

theorem get?_counts (p : Proposal) (chain : Selector) : p.counts.get? chain =
    if countOn chain p.operations = 0 then none else some (countOn chain p.operations) := by
  have hcounted := get?_counted chain p.operations ∅
  rwa [Table.get?_empty, Option.getD_none, Nat.zero_add] at hcounted

theorem getD_get?_counts (p : Proposal) (chain : Selector) :
    (p.counts.get? chain).getD 0 = countOn chain p.operations := by
  rw [get?_counts]
  split
  · rename_i hnone
    rw [hnone, Option.getD_none]
  · rfl

/-- A chain has an entry with a count exactly if it has operations, and as many. -/
theorem get?_counts_eq_some {p : Proposal} {chain : Selector} {count : Nat} :
    p.counts.get? chain = some count ↔ 0 < count ∧ countOn chain p.operations = count := by
  rw [get?_counts]
  split
  · rename_i hnone
    rw [hnone]
    simp only [reduceCtorEq, false_iff]
    omega
  · rw [Option.some.injEq]
    omega

/-! ## Operations with their ranks -/

/-- Operations that follow the operations `done`, each with its rank. -/
def rankedAfter (done : List Operation) : List Operation → List (Operation × Nat)
  | [] => []
  | op :: ops => (op, countOn op.chain done) :: rankedAfter (done ++ [op]) ops

/-- The operations of the proposal, each with its rank. -/
def ranked (p : Proposal) : List (Operation × Nat) := rankedAfter [] p.operations

theorem map_fst_rankedAfter :
    ∀ done ops : List Operation, (rankedAfter done ops).map (·.1) = ops
  | _, [] => rfl
  | done, op :: ops => congrArg (op :: ·) (map_fst_rankedAfter (done ++ [op]) ops)

theorem map_fst_ranked (p : Proposal) : p.ranked.map (·.1) = p.operations :=
  map_fst_rankedAfter [] p.operations

theorem getElem?_rankedAfter : ∀ (done ops : List Operation) (i : Nat),
    (rankedAfter done ops)[i]? =
      ops[i]?.map fun op => (op, countOn op.chain (done ++ ops.take i))
  | _, [], _ => by simp [rankedAfter]
  | done, op :: ops, 0 => by simp [rankedAfter]
  | done, op :: ops, i + 1 => by
    rw [rankedAfter, List.getElem?_cons_succ, List.getElem?_cons_succ, List.take_succ_cons,
      getElem?_rankedAfter, List.append_assoc]
    rfl

theorem getElem?_ranked (p : Proposal) (i : Nat) : p.ranked[i]? =
    p.operations[i]?.map fun op => (op, countOn op.chain (p.operations.take i)) :=
  getElem?_rankedAfter [] p.operations i

/-! ## Marks -/

/-- The nonce that a number is, unless it is beyond the last nonce. -/
def nonce? (n : Nat) : Option UInt64 := if n < UInt64.size then some (UInt64.ofNat n) else none

theorem nonce?_toNat (n : UInt64) : nonce? n.toNat = some n := by
  unfold nonce?
  rw [if_pos n.toNat_lt, UInt64.ofNat_toNat]

theorem nonce?_eq_some {n : Nat} {nonce : UInt64} : nonce? n = some nonce ↔ nonce.toNat = n := by
  constructor
  · intro h
    unfold nonce? at h
    split at h
    · rename_i hlt
      cases h
      exact UInt64.toNat_ofNat_of_lt' hlt
    · cases h
  · rintro rfl
    exact nonce?_toNat nonce

theorem nonce?_eq_none {n : Nat} : nonce? n = none ↔ UInt64.size ≤ n := by
  unfold nonce?
  split
  · simp only [reduceCtorEq, false_iff]
    omega
  · simp only [true_iff]
    omega

theorem nonce?_succ (nonce : UInt64) :
    (if nonce.toNat + 1 < UInt64.size then some (nonce + 1) else none) = nonce? (nonce.toNat + 1) := by
  unfold nonce?
  rw [UInt64.ofNat_add, UInt64.ofNat_toNat]
  rfl

/-- The marks after the operations `done`: for each chain of the proposal the nonce that comes next,
or that none is left. -/
def Marks (p : Proposal) (next : Table Selector (Option UInt64)) (done : List Operation) : Prop :=
  ∀ chain m, p.chains.get? chain = some m →
    (next.get? chain).getD (some m.startingCount) =
      nonce? (m.startingCount.toNat + countOn chain done)

theorem marks_empty (p : Proposal) : Marks p ∅ [] := by
  intro chain m _
  rw [Table.get?_empty, countOn_nil, Nat.add_zero, nonce?_toNat]
  rfl

/-- Numbering one operation moves the mark of its chain by one and leaves the others. -/
theorem marks_step {p : Proposal} {next : Table Selector (Option UInt64)} {done : List Operation}
    (h : Marks p next done) {op : Operation} {m : Metadata} {nonce : UInt64}
    (hm : p.chains.get? op.chain = some m)
    (hn : (next.get? op.chain).getD (some m.startingCount) = some nonce) :
    Marks p (next.insert op.chain
      (if nonce.toNat + 1 < UInt64.size then some (nonce + 1) else none)) (done ++ [op]) := by
  intro chain m' hm'
  rw [Table.get?_insert, countOn_append, countOn_singleton]
  by_cases hc : chain = op.chain
  · subst hc
    rw [hm] at hm'
    cases hm'
    rw [h _ _ hm] at hn
    rw [if_pos rfl, if_pos rfl, Option.getD_some, nonce?_succ, nonce?_eq_some.1 hn, Nat.add_assoc]
  · rw [if_neg hc, if_neg (fun he => hc he.symm), Nat.add_zero]
    exact h chain m' hm'

/-! ## Nonces -/

/-- The nonce of an operation with a rank, if its chain is known and has one left. -/
def rankedNonce? (p : Proposal) (e : Operation × Nat) : Option UInt64 :=
  (p.chains.get? e.1.chain).bind fun m => nonce? (m.startingCount.toNat + e.2)

/-- The nonce of an operation with a rank, or what keeps it from having one. -/
def rankedNonce (p : Proposal) (e : Operation × Nat) : Except Fault UInt64 := do
  let m ← p.metadata e.1.chain
  match nonce? (m.startingCount.toNat + e.2) with
  | some nonce => .ok nonce
  | none => .error (.countOverflow e.1.chain)

theorem rankedNonce_eq_ok {p : Proposal} {e : Operation × Nat} {nonce : UInt64} :
    p.rankedNonce e = .ok nonce ↔ p.rankedNonce? e = some nonce := by
  unfold rankedNonce rankedNonce?
  rw [bind_eq_ok, Option.bind_eq_some_iff]
  simp only [metadata_eq_ok]
  refine exists_congr fun m => and_congr_right fun _ => ?_
  cases nonce? (m.startingCount.toNat + e.2) <;> simp

/-- Operations are numbered one by one, each by its rank. -/
theorem noncesFrom_eq_mapM {p : Proposal} : ∀ {ops done : List Operation}
    {next : Table Selector (Option UInt64)}, Marks p next done →
      p.noncesFrom next ops = (rankedAfter done ops).mapM p.rankedNonce
  | [], _, _, _ => rfl
  | op :: ops, done, next, hmarks => by
    rw [noncesFrom, rankedAfter, List.mapM_cons, rankedNonce]
    cases hm : p.metadata op.chain with
    | error fault => rfl
    | ok m =>
      rw [metadata_eq_ok] at hm
      have hmark := hmarks op.chain m hm
      simp only [ok_bind, hmark]
      cases hnonce : nonce? (m.startingCount.toNat + countOn op.chain done) with
      | none => rfl
      | some nonce =>
        simp only [ok_bind, noncesFrom_eq_mapM (marks_step hmarks hm (hmark.trans hnonce))]
        rfl

theorem nonces_eq_mapM (p : Proposal) : p.nonces = p.ranked.mapM p.rankedNonce :=
  noncesFrom_eq_mapM (marks_empty p)

/-- Besides the operations only the chains of a proposal have a say in how they are numbered. -/
theorem nonces_congr {p q : Proposal} (hc : p.chains = q.chains)
    (ho : p.operations = q.operations) : p.nonces = q.nonces := by
  have hnonce : p.rankedNonce = q.rankedNonce := by
    unfold rankedNonce metadata
    rw [hc]
  rw [nonces_eq_mapM, nonces_eq_mapM, hnonce, ranked, ranked, ho]

theorem nonces_eq_ok {p : Proposal} {nonces : List UInt64} : p.nonces = .ok nonces ↔
    List.Forall₂ (fun e nonce => p.rankedNonce? e = some nonce) p.ranked nonces := by
  rw [nonces_eq_mapM, mapM_eq_ok]
  simp only [rankedNonce_eq_ok]

/-- Every operation has a nonce: the starting count of its chain and one more for each earlier
operation on the chain. -/
theorem nonces_spec {p : Proposal} {nonces : List UInt64} (h : p.nonces = .ok nonces) :
    nonces.length = p.operations.length ∧ ∀ i op, p.operations[i]? = some op →
      ∃ m nonce, p.chains.get? op.chain = some m ∧ nonces[i]? = some nonce ∧
        nonce.toNat = m.startingCount.toNat + countOn op.chain (p.operations.take i) := by
  rw [nonces_eq_mapM] at h
  refine ⟨?_, fun i op hop => ?_⟩
  · rw [← length_of_mapM_eq_ok h, ← map_fst_ranked p, List.length_map]
  · have hranked : p.ranked[i]? = some (op, countOn op.chain (p.operations.take i)) := by
      rw [getElem?_ranked, hop, Option.map_some]
    obtain ⟨nonce, hnonce, heq⟩ := getElem?_of_mapM_eq_ok h hranked
    obtain ⟨m, hm, heq⟩ := Option.bind_eq_some_iff.1 (rankedNonce_eq_ok.1 heq)
    exact ⟨m, nonce, hm, hnonce, nonce?_eq_some.1 heq⟩

end Quorate.Proposal
