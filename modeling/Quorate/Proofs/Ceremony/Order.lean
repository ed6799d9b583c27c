/-
Order: whatever operations are executed, in whatever order and however often, the contracts of the
chains take them in the order of the proposal. A contract takes an operation when it is the next one
on its chain and no other, since only then is the operation's nonce the count of the contract.
-/
import Quorate.Proofs.Ceremony.Contract
import Quorate.Proofs.Ceremony.Readiness
import Quorate.Proofs.Proposal.Turns

namespace Quorate.Ceremony

variable {σ : Type}

/-- Executes the operations at the given indices one after the other, and goes on after a fault. It
ends in the indices whose execution succeeded, and in a world. -/
def executeInTurn (c : Ceremony σ) : List Nat → σ → List Nat × σ
  | [], w => ([], w)
  | i :: calls, w =>
    let (answer, w') := outcome (c.execute i) w
    let (taken, w'') := executeInTurn c calls w'
    (if answer.isOk then i :: taken else taken, w'')

theorem executeInTurn_sublist (c : Ceremony σ) :
    ∀ (calls : List Nat) (w : σ), (c.executeInTurn calls w).1.Sublist calls
  | [], _ => .slnil
  | i :: calls, w => by
    have hrest := executeInTurn_sublist c calls (outcome (c.execute i) w).2
    simp only [executeInTurn]
    split
    · exact hrest.cons_cons i
    · exact hrest.cons i

/-! ## Taken and refused -/

/-- The operations at the indices `done` are those that the contracts have taken so far: they were
in turn, and each contract has counted its own. All contracts hold the root. -/
structure Taken (b : Books σ) (c : Ceremony σ) (done : List Nat) (w : σ) : Prop where
  inTurn : c.proposal.InTurn done
  known : ∀ i ∈ done, i < c.proposal.operations.length
  count : ∀ chain m, c.proposal.chains.get? chain = some m → b.count w chain =
    m.startingCount.toNat + (done.filter (c.proposal.onChain chain)).length
  root : ∀ chain m, c.proposal.chains.get? chain = some m → b.root w chain = c.root

/-- A committed ceremony over a valid proposal, each of whose executors has the encoder of its
chain and a contract that counts. -/
structure Counted (b : Books σ) (c : Ceremony σ) (now : Int) : Prop where
  committed : c.Committed
  valid : c.proposal.Valid now
  encoders : ∀ chain, c.encoders.get? chain = (c.executors.get? chain).map (·.encoder)
  counting : Counting b c.executors

/-- No operation lies beyond the last index, and nothing is asked of a contract. -/
theorem execute_of_none {c : Ceremony σ} {i : Nat} (h : c.proposal.operations[i]? = none) (w : σ) :
    outcome (c.execute i) w = (.error (.indexOutOfRange i c.proposal.operations.length), w) := by
  have hop : c.operationAt i = .error (.indexOutOfRange i c.proposal.operations.length) := by
    unfold operationAt
    rw [h]
  unfold execute prepareOperation
  rw [hop]
  rfl

/-- What executing an operation of the proposal asks of the contract. The contract is to take it
exactly when its operation is the next on the chain. -/
theorem Counted.execute_asks {b : Books σ} {c : Ceremony σ} {now : Int} (hc : Counted b c now)
    {done : List Nat} {w : σ} (h : Taken b c done w) {i : Nat} {op : Operation}
    (hop : c.proposal.operations[i]? = some op) :
    ∃ x m nonce proof, c.executors.get? op.chain = some x ∧
      c.execute i = asking (x.execute m nonce proof op) ∧
      (b.Takes w op.chain x m nonce proof op ↔ c.proposal.Next done i) := by
  obtain ⟨m, e, nonce, leaf, proof, hm, he, hnonce, hval, hleaf, hproof, hroot⟩ :=
    hc.committed.operation_proof hc.valid hop
  obtain ⟨x, hx, rfl⟩ := Option.map_eq_some_iff.1 ((hc.encoders op.chain).symm.trans he)
  refine ⟨x, m, nonce, proof, hx, ?_, ?_⟩
  · have hx' : c.executor op.chain = .ok x := Table.find_of_get? _ hx
    rw [execute_eq hop hm he hnonce hleaf hproof, hx']
    rfl
  · -- leaf and proof lead to the root in any case, so that only the count is in question
    unfold Books.Takes
    rw [h.count op.chain m hm, h.root op.chain m hm, hval]
    constructor
    · rintro ⟨hcount, _⟩
      exact ⟨op, hop, Nat.add_left_cancel hcount⟩
    · rintro ⟨op', hop', hcount⟩
      obtain rfl : op = op' := Option.some.inj (hop.symm.trans hop')
      exact ⟨congrArg (m.startingCount.toNat + ·) hcount, leaf, hleaf, hroot⟩

/-- One more operation is taken when it is the next on its chain. -/
theorem Taken.snoc {b : Books σ} {c : Ceremony σ} {done : List Nat} {w w' : σ}
    (h : Taken b c done w) {i : Nat} {op : Operation} (hop : c.proposal.operations[i]? = some op)
    (hnext : c.proposal.Next done i) (hroot : b.root w' = b.root w)
    (hcount : ∀ other, b.count w' other =
      if other = op.chain then b.count w op.chain + 1 else b.count w other) :
    Taken b c (done ++ [i]) w' := by
  refine ⟨h.inTurn.snoc hnext, fun j hj => ?_, fun chain m hm => ?_, fun chain m hm => ?_⟩
  · rcases List.mem_append.1 hj with hj | hj
    · exact h.known j hj
    · rw [List.mem_singleton.1 hj]
      exact (List.getElem?_eq_some_iff.1 hop).1
  · rw [hcount chain, List.filter_append, List.length_append, List.filter_cons, List.filter_nil,
      ← Nat.add_assoc, ← h.count chain m hm]
    by_cases hc : chain = op.chain
    · subst hc
      rw [if_pos rfl, if_pos (Proposal.onChain_of_getElem? hop)]
      rfl
    · have hoff : ¬ c.proposal.onChain chain i = true := by
        intro hon
        obtain ⟨op', hop', hc'⟩ := Proposal.onChain_iff.1 hon
        obtain rfl : op = op' := Option.some.inj (hop.symm.trans hop')
        exact hc hc'.symm
      rw [if_neg hc, if_neg hoff]
      rfl
  · rw [hroot]
    exact h.root chain m hm

/-- Nothing is taken when the contracts stay as they are. -/
theorem Taken.same {b : Books σ} {c : Ceremony σ} {done : List Nat} {w w' : σ}
    (h : Taken b c done w) (hroot : b.root w' = b.root w) (hcount : b.count w' = b.count w) :
    Taken b c done w' :=
  ⟨h.inTurn, h.known, fun chain m hm => by rw [hcount]; exact h.count chain m hm,
    fun chain m hm => by rw [hroot]; exact h.root chain m hm⟩

/-- Executing an operation succeeds when it is the next on its chain, and then it is taken; else it
fails and nothing is taken. -/
theorem Counted.execute_spec {b : Books σ} {c : Ceremony σ} {now : Int} (hc : Counted b c now)
    {done : List Nat} {w : σ} (h : Taken b c done w) (i : Nat) :
    (c.proposal.Next done i ∧ (outcome (c.execute i) w).1.isOk = true ∧
      Taken b c (done ++ [i]) (outcome (c.execute i) w).2) ∨
    (¬ c.proposal.Next done i ∧ (outcome (c.execute i) w).1.isOk = false ∧
      Taken b c done (outcome (c.execute i) w).2) := by
  cases hop : c.proposal.operations[i]? with
  | none =>
    right
    rw [execute_of_none hop]
    refine ⟨?_, rfl, h⟩
    rintro ⟨op, hop', _⟩
    rw [hop] at hop'
    cases hop'
  | some op =>
    obtain ⟨x, m, nonce, proof, hx, heq, htakes⟩ := hc.execute_asks h hop
    rw [heq, outcome_asking, isOk_mapError]
    rcases hrun : outcome (x.execute m nonce proof op) w with ⟨answer, w'⟩
    by_cases hnext : c.proposal.Next done i
    · left
      obtain ⟨hok, hroot, hcount⟩ :=
        hc.counting.takes _ x hx m nonce proof op w w' answer hrun (htakes.2 hnext)
      exact ⟨hnext, hok, h.snoc hop hnext hroot hcount⟩
    · right
      obtain ⟨hok, hroot, hcount⟩ :=
        hc.counting.refuses _ x hx m nonce proof op w w' answer hrun (mt htakes.1 hnext)
      exact ⟨hnext, hok, h.same hroot hcount⟩

/-! ## Runs -/

/-- What a run takes comes behind what was taken before it. -/
theorem Counted.executeInTurn_taken {b : Books σ} {c : Ceremony σ} {now : Int}
    (hc : Counted b c now) :
    ∀ (calls : List Nat) {done : List Nat} {w : σ}, Taken b c done w →
      Taken b c (done ++ (c.executeInTurn calls w).1) (c.executeInTurn calls w).2
  | [], done, w, h => by
    show Taken b c (done ++ []) w
    rw [List.append_nil]
    exact h
  | i :: calls, done, w, h => by
    simp only [executeInTurn]
    rcases hc.execute_spec h i with ⟨_, hok, h'⟩ | ⟨_, hok, h'⟩
    -- taken or refused, the contracts are again as after the operations taken so far
    · have hrest := hc.executeInTurn_taken calls h'
      rw [List.append_assoc] at hrest
      rw [hok, if_pos rfl]
      exact hrest
    · rw [hok]
      exact hc.executeInTurn_taken calls h'

/-- A run whose operations are in turn is taken as a whole. -/
theorem Counted.executeInTurn_all {b : Books σ} {c : Ceremony σ} {now : Int}
    (hc : Counted b c now) :
    ∀ {calls done : List Nat} {w : σ}, Taken b c done w → c.proposal.InTurn (done ++ calls) →
      (∀ i ∈ calls, i < c.proposal.operations.length) → (c.executeInTurn calls w).1 = calls
  | [], _, _, _, _, _ => rfl
  | i :: calls, done, w, h, hturn, hlt => by
    have hnext := hturn.next (List.getElem?_eq_getElem (hlt i (List.mem_cons_self ..)))
    simp only [executeInTurn]
    rcases hc.execute_spec h i with ⟨_, hok, h'⟩ | ⟨hnot, _, _⟩
    · have hturn' : c.proposal.InTurn (done ++ [i] ++ calls) := by
        rw [List.append_assoc]
        exact hturn
      have hrest := hc.executeInTurn_all h' hturn' fun j hj => hlt j (List.mem_cons_of_mem _ hj)
      rw [hok, if_pos rfl, hrest]
    · exact absurd hnext hnot

/-- A ceremony that starts with executors whose contracts count. -/
theorem counted_of_ofExecutors {p : Proposal} {executors : Executors σ} {c : Ceremony σ}
    {b : Books σ} {now : Int} (valid : p.validateAt now = .ok ())
    (built : ofExecutors p executors = .ok c) (counting : Counting b executors) :
    c.proposal = p ∧ Counted b c now := by
  obtain ⟨c₀, hstart, rfl⟩ := ofExecutors_eq_ok.1 built
  have hcommitted := committed_of_start hstart
  obtain ⟨k, _, rfl⟩ := start_eq_ok.1 hstart
  exact ⟨rfl, hcommitted, Proposal.validateAt_eq_ok.1 valid,
    fun chain => Table.get?_map _ executors chain, counting⟩

/-- Contracts that start from the starting counts and hold the root take the operations of each
chain in the order of the proposal, without a gap, whatever is executed; and when every operation is
executed once, all are taken exactly when the order is kept on every chain. -/
theorem operations_are_taken_in_order {p : Proposal} {executors : Executors σ} {c : Ceremony σ}
    {b : Books σ} {now : Int} {w : σ} (valid : p.validateAt now = .ok ())
    (built : ofExecutors p executors = .ok c) (counting : Counting b executors)
    (opened : b.Opened w p c.root) (calls : List Nat) :
    ∃ taken w', c.executeInTurn calls w = (taken, w') ∧ taken.Sublist calls ∧
      (∀ i ∈ taken, i < p.operations.length) ∧
      (∀ chain, taken.filter (p.onChain chain) <+: p.turns chain ∧
        (taken.filter (p.onChain chain)).filterMap (p.operations[·]?) <+:
          p.operations.filter (·.chain = chain)) ∧
      (∀ chain m, p.chains.get? chain = some m → b.count w' chain =
        m.startingCount.toNat + (taken.filter (p.onChain chain)).length) ∧
      (calls.Perm (List.range p.operations.length) → (taken = calls ↔ p.KeepsOrder calls)) := by
  obtain ⟨rfl, hc⟩ := counted_of_ofExecutors valid built counting
  have hstart : Taken b c [] w :=
    ⟨c.proposal.inTurn_nil, (fun i hi => by cases hi), fun chain m hm => (opened chain m hm).1,
      fun chain m hm => (opened chain m hm).2⟩
  have htaken := hc.executeInTurn_taken calls hstart
  rw [List.nil_append] at htaken
  refine ⟨_, _, rfl, executeInTurn_sublist c calls w, htaken.known,
    fun chain => ⟨htaken.inTurn chain, ?_⟩, htaken.count,
    fun hall => ⟨fun heq => ?_, fun horder => ?_⟩⟩
  · rw [← Proposal.filterMap_turns]
    exact (htaken.inTurn chain).filterMap _
  · have hturn := htaken.inTurn
    rw [heq] at hturn
    exact hturn.keepsOrder
  · refine hc.executeInTurn_all hstart (horder.inTurn hall) fun i hi => ?_
    exact List.mem_range.1 (hall.mem_iff.1 hi)

/-- Of three operations on two chains, all are taken in one order, and not in another. -/
theorem ledger_takes_in_order : ∃ c : Ceremony Ledger,
    Sample.proposal.validateAt 0 = .ok () ∧
      ofExecutors Sample.proposal (Sample.encoders.map Ledger.contract) = .ok c ∧
      Counting Ledger.books (Sample.encoders.map Ledger.contract) ∧
      Ledger.books.Opened (.opening Sample.proposal c.root) Sample.proposal c.root ∧
      (c.executeInTurn [1, 0, 2] (.opening Sample.proposal c.root)).1 = [1, 0, 2] ∧
      (c.executeInTurn [2, 0, 1] (.opening Sample.proposal c.root)).1 ≠ [2, 0, 1] := by
  obtain ⟨c, hc⟩ : ∃ c : Ceremony Ledger,
      ofExecutors Sample.proposal (Sample.encoders.map Ledger.contract) = .ok c := ⟨_, rfl⟩
  have counting := Ledger.counting_contracts Sample.encoders
  have opened := Ledger.opened_opening Sample.proposal c.root
  refine ⟨c, Sample.valid, hc, counting, opened, ?_, ?_⟩
  · obtain ⟨_, _, heq, _, _, _, _, hall⟩ :=
      operations_are_taken_in_order Sample.valid hc counting opened [1, 0, 2]
    rw [heq]
    exact (hall (by decide)).2 (by decide)
  · obtain ⟨_, _, heq, _, _, _, _, hall⟩ :=
      operations_are_taken_in_order Sample.valid hc counting opened [2, 0, 1]
    rw [heq]
    exact mt (hall (by decide)).1 (by decide)

end Quorate.Ceremony
