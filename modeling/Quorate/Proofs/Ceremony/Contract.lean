/-
Contracts that count. The contract of a chain holds a root and the count of the operations that it
took. It takes an operation exactly when the nonce is the count and the proof leads from the leaf to
the root, and then counts one up; an operation that it refuses changes neither.
-/
import Quorate.Ceremony.Submission
import Quorate.Proofs.Outcome
import Quorate.Proofs.Table

namespace Quorate.Ceremony

variable {σ : Type}

/-- What is seen of the contracts in a world: for each chain a count, which has no bound, and a
root. -/
structure Books (σ : Type) where
  count : σ → Selector → Nat
  root : σ → Selector → Digest

/-- Whether the contract of a chain is to take an operation. The leaf is made anew by the executor's
own encoder. -/
def Books.Takes (b : Books σ) (w : σ) (chain : Selector) (x : Executor σ) (m : Metadata)
    (nonce : UInt64) (proof : List Digest) (op : Operation) : Prop :=
  nonce.toNat = b.count w chain ∧ ∃ leaf, x.encoder.operationLeaf nonce m op = .ok leaf ∧
    Merkle.verify (b.root w chain) leaf proof = true

/-- Executors whose contracts count. What else they do to the world is left open. -/
structure Counting (b : Books σ) (executors : Executors σ) : Prop where
  takes : ∀ chain x, executors.get? chain = some x → ∀ m nonce proof op w w' answer,
    outcome (x.execute m nonce proof op) w = (answer, w') →
    b.Takes w chain x m nonce proof op → answer.isOk = true ∧ b.root w' = b.root w ∧
      ∀ other, b.count w' other = if other = chain then b.count w chain + 1 else b.count w other
  refuses : ∀ chain x, executors.get? chain = some x → ∀ m nonce proof op w w' answer,
    outcome (x.execute m nonce proof op) w = (answer, w') →
    ¬ b.Takes w chain x m nonce proof op → answer.isOk = false ∧ b.root w' = b.root w ∧
      b.count w' = b.count w

/-- The contracts of a proposal's chains have counted up to its starting counts and hold a root. -/
def Books.Opened (b : Books σ) (w : σ) (p : Proposal) (root : Digest) : Prop :=
  ∀ chain m, p.chains.get? chain = some m →
    b.count w chain = m.startingCount.toNat ∧ b.root w chain = root

/-! ## Contracts in memory -/

/-- Counts and roots in memory. -/
structure Ledger where
  count : Selector → Nat
  root : Selector → Digest

namespace Ledger

def books : Books Ledger := ⟨count, root⟩

/-- The ledger after the contract of a chain took an operation. -/
def counted (l : Ledger) (chain : Selector) : Ledger :=
  { l with count := fun other => if other = chain then l.count chain + 1 else l.count other }

/-- The answer of the contract of a chain to an operation, and the ledger after it. -/
def execute (l : Ledger) (chain : Selector) (e : Encoder) (m : Metadata) (nonce : UInt64)
    (proof : List Digest) (op : Operation) : Except Complaint Receipt × Ledger :=
  match e.operationLeaf nonce m op with
  | .error complaint => (.error complaint, l)
  | .ok leaf =>
    if nonce.toNat = l.count chain ∧ Merkle.verify (l.root chain) leaf proof = true then
      (.ok ⟨toString nonce, "ledger", none⟩, l.counted chain)
    else (.error ⟨"refused"⟩, l)

/-- The contract of a chain in a ledger, with an encoder of its own. -/
def contract (chain : Selector) (e : Encoder) : Executor Ledger where
  encoder := e
  setRoot _ s := fun l => (.ok ⟨s.root.toHex, "ledger", none⟩,
    { l with root := fun other => if other = chain then s.root else l.root other })
  execute m nonce proof op := fun l => l.execute chain e m nonce proof op

/-- The contracts of a ledger count, whatever their encoders. -/
theorem counting_contracts (encoders : Encoders) : Counting books (encoders.map contract) := by
  have hget : ∀ {chain : Selector} {x : Executor Ledger},
      (encoders.map contract).get? chain = some x → ∃ e, x = contract chain e := by
    intro chain x hx
    rw [Table.get?_map, Option.map_eq_some_iff] at hx
    obtain ⟨e, _, rfl⟩ := hx
    exact ⟨e, rfl⟩
  constructor
  · intro chain x hx m nonce proof op l l' answer hrun htakes
    obtain ⟨e, rfl⟩ := hget hx
    obtain ⟨hcount, leaf, hleaf, hroot⟩ := htakes
    have hleaf' : e.operationLeaf nonce m op = .ok leaf := hleaf
    have hrun' : l.execute chain e m nonce proof op = (answer, l') := hrun
    unfold execute at hrun'
    rw [hleaf'] at hrun'
    simp only at hrun'
    rw [if_pos ⟨hcount, hroot⟩] at hrun'
    cases hrun'
    exact ⟨rfl, rfl, fun _ => rfl⟩
  · intro chain x hx m nonce proof op l l' answer hrun hnot
    obtain ⟨e, rfl⟩ := hget hx
    have hrun' : l.execute chain e m nonce proof op = (answer, l') := hrun
    unfold execute at hrun'
    split at hrun'
    · cases hrun'
      exact ⟨rfl, rfl, rfl⟩
    · rename_i leaf hleaf
      split at hrun'
      -- a ledger that goes on has found all that it takes
      · rename_i h
        exact absurd ⟨h.1, leaf, hleaf, h.2⟩ hnot
      · cases hrun'
        exact ⟨rfl, rfl, rfl⟩

/-- A ledger whose contracts start from the starting counts of a proposal and hold a root. -/
def opening (p : Proposal) (root : Digest) : Ledger where
  count chain := ((p.chains.get? chain).map (·.startingCount.toNat)).getD 0
  root _ := root

theorem opened_opening (p : Proposal) (root : Digest) :
    books.Opened (opening p root) p root := by
  intro chain m hm
  refine ⟨?_, rfl⟩
  show ((p.chains.get? chain).map (·.startingCount.toNat)).getD 0 = _
  rw [hm]
  rfl

end Ledger

end Quorate.Ceremony
