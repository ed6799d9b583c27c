/-
Monotone consensus: once a policy is at consensus, more signers do not undo it. So all that counts
is who signed, not in which order or how often; and a signer whom the policy does not know spoils
the answer, whoever else signed.
-/
import Quorate.Proofs.Policy.Nodes
import Quorate.Proofs.Sample

namespace Quorate.Policy

variable {signed signed' : List Address} {p : Policy}

/-! ## Consensus -/

theorem atConsensus_mono (h : signed ⊆ signed') (hreached : p.atConsensus signed = true) :
    p.atConsensus signed' = true := by
  induction p using tree_induction with
  | step q ms gs ih =>
    rw [atConsensus_node] at hreached ⊢
    have hmembers : ms.countP (signed.contains ·) ≤ ms.countP (signed'.contains ·) := by
      apply List.countP_mono_left
      intro a _ ha
      rw [List.contains_iff_mem] at ha ⊢
      exact h ha
    have hgroups : gs.countP (atConsensus signed) ≤ gs.countP (atConsensus signed') :=
      List.countP_mono_left ih
    omega

theorem atConsensus_congr (h : ∀ a, a ∈ signed ↔ a ∈ signed') :
    p.atConsensus signed = p.atConsensus signed' := by
  rw [Bool.eq_iff_iff]
  constructor
  · exact atConsensus_mono fun a => (h a).1
  · exact atConsensus_mono fun a => (h a).2

/-! ## Known signers -/

/-- A policy gives its answer when it knows everyone who signed. -/
theorem authorizes_eq_ok {b : Bool} : p.authorizes signed = .ok b ↔
    (∀ a ∈ signed, a ∈ p.allMembers) ∧ p.atConsensus signed = b := by
  have hknown : signed.find? (!p.allMembers.contains ·) = none ↔
      ∀ a ∈ signed, a ∈ p.allMembers := by
    rw [List.find?_eq_none]
    simp only [Bool.not_eq_true', Bool.not_eq_false, List.contains_iff_mem]
  rw [← hknown, authorizes]
  cases signed.find? (!p.allMembers.contains ·) with
  | none => simp
  | some stranger => simp

/-- The first signer whom a policy does not know is its error. -/
theorem authorizes_eq_error {a : Address} : p.authorizes signed = .error a ↔
    ∃ before after, signed = before ++ a :: after ∧ (∀ b ∈ before, b ∈ p.allMembers) ∧
      a ∉ p.allMembers := by
  have hstranger : signed.find? (!p.allMembers.contains ·) = some a ↔
      ∃ before after, signed = before ++ a :: after ∧ (∀ b ∈ before, b ∈ p.allMembers) ∧
        a ∉ p.allMembers := by
    rw [List.find?_eq_some_iff_append]
    simp only [Bool.not_eq_true', Bool.not_not, List.contains_eq_mem, decide_eq_false_iff_not,
      decide_eq_true_eq]
    constructor
    · rintro ⟨ha, before, after, hsplit, hbefore⟩
      exact ⟨before, after, hsplit, hbefore, ha⟩
    · rintro ⟨before, after, hsplit, hbefore, ha⟩
      exact ⟨ha, before, after, hsplit, hbefore⟩
  rw [← hstranger, authorizes]
  cases signed.find? (!p.allMembers.contains ·) with
  | none => simp
  | some stranger => simp

/-! ## Two members -/

section Pair

variable {q : UInt8} {a b : Address}

theorem authorizes_both (hq : q.toNat ≤ 2) : (node q [a, b] []).authorizes [a, b] = .ok true := by
  refine authorizes_eq_ok.2 ⟨by simp [allMembers_node], ?_⟩
  simp [atConsensus_node, hq]

theorem authorizes_either : (node 1 [a, b] []).authorizes [a] = .ok true := by
  refine authorizes_eq_ok.2 ⟨by simp [allMembers_node], ?_⟩
  simp [atConsensus_node]

theorem authorizes_short (hab : a ≠ b) : (node 2 [a, b] []).authorizes [a] = .ok false := by
  refine authorizes_eq_ok.2 ⟨by simp [allMembers_node], ?_⟩
  rw [← Bool.not_eq_true, atConsensus_node]
  simp [hab.symm]

end Pair

/-! ## Who signed, and no more -/

/-- More signers never undo consensus, so it depends only on who signed. Where each signer is a
member of some node, consensus is what the policy answers; otherwise the first signer who is a
member of none is the error. -/
theorem consensus_grows_and_first_stranger_is_named (p : Policy) :
    (∀ signed signed' : List Address, (∀ a ∈ signed, a ∈ signed') →
        p.atConsensus signed = true → p.atConsensus signed' = true) ∧
      (∀ signed signed' : List Address, (∀ a, a ∈ signed ↔ a ∈ signed') →
        p.atConsensus signed = p.atConsensus signed') ∧
      ∀ signed : List Address,
        (∀ a, p.authorizes signed = .error a ↔ ∃ before after, signed = before ++ a :: after ∧
          (∀ b ∈ before, p.Knows b) ∧ ¬ p.Knows a) ∧
        ((∀ a ∈ signed, p.Knows a) → p.authorizes signed = .ok (p.atConsensus signed)) := by
  refine ⟨fun signed signed' => atConsensus_mono, fun signed signed' => atConsensus_congr,
    fun signed => ⟨fun a => ?_, fun hknown => ?_⟩⟩
  · simp only [authorizes_eq_error, mem_allMembers]
  · exact authorizes_eq_ok.2 ⟨fun a ha => mem_allMembers.2 (hknown a ha), rfl⟩

/-- A stranger among the signers does not undo consensus, who signs twice or before others adds
nothing to it, and of two strangers the one who signed first is named. -/
theorem second_signature_adds_nothing :
    Sample.council.atConsensus
        [Sample.member 3, Sample.member 9, Sample.member 2, Sample.member 1] = true ∧
      Sample.council.atConsensus [Sample.member 2, Sample.member 3, Sample.member 2] =
        Sample.council.atConsensus [Sample.member 3, Sample.member 2] ∧
      Sample.council.authorizes [Sample.member 1, Sample.member 9, Sample.member 8] =
        .error (Sample.member 9) := by
  obtain ⟨hgrows, hcongr, hanswer⟩ := consensus_grows_and_first_stranger_is_named Sample.council
  refine ⟨hgrows [Sample.member 1, Sample.member 2, Sample.member 3] _ (by decide) (by decide),
    hcongr _ _ fun a => ?_, ((hanswer _).1 _).2 ⟨[_], [_], rfl, ?_, ?_⟩⟩
  · simp only [List.mem_cons, List.not_mem_nil, or_false]
    tauto
  · rw [List.forall_mem_singleton, ← mem_allMembers]
    decide
  · rw [← mem_allMembers]
    decide

end Quorate.Policy
