/-
Lasting answers: what later signatures can do to the check of a chain whose policy stays as it is. A
quorum that is reached stays reached while members of the policy sign, since more signers do not
undo consensus. A signature that leads to nobody, or to someone whom the policy does not know, spoils
the check for good, since signatures are never taken back.
-/
import Quorate.Proofs.Ceremony.Checks
import Quorate.Proofs.Ceremony.Course
import Quorate.Proofs.Policy.Monotone
import Quorate.Proofs.Signature.Keys

namespace Quorate.Ceremony

variable {σ : Type} {c d : Ceremony σ} {policy : Policy}

/-! ## Known signatures -/

/-- A signature is traced to a member of the policy. -/
def Known (c : Ceremony σ) (policy : Policy) (sig : Signature) : Prop :=
  ∃ a, c.signerOf sig = .ok a ∧ a ∈ policy.allMembers

theorem not_known_iff {sig : Signature} : ¬ c.Known policy sig ↔
    (∃ e, c.signerOf sig = .error e) ∨ ∃ a, c.signerOf sig = .ok a ∧ a ∉ policy.allMembers := by
  unfold Known
  cases c.signerOf sig with
  | error e => simp
  | ok a => simp

theorem forall_known_iff : (∀ sig ∈ c.proposal.signatures, c.Known policy sig) ↔
    ∃ signers, c.signers = .ok signers ∧ ∀ a ∈ signers, a ∈ policy.allMembers :=
  exists_mapM_eq_ok.symm

section Answered

variable {chain : Selector} {w w' : σ} (answered : c.Answers chain w policy w')
include answered

theorem Answers.checkQuorum_eq_ok {b : Bool} : (outcome (c.checkQuorum chain) w).1 = .ok b ↔
    ∃ signers, c.signers = .ok signers ∧ (∀ a ∈ signers, a ∈ policy.allMembers) ∧
      policy.atConsensus signers = b := by
  rw [answered.checkQuorum, bind_eq_ok]
  simp only [authorized_eq_ok, Policy.authorizes_eq_ok]

/-- The check comes to an answer when every signature is known. -/
theorem Answers.checkQuorum_answers : (∃ b, (outcome (c.checkQuorum chain) w).1 = .ok b) ↔
    ∀ sig ∈ c.proposal.signatures, c.Known policy sig := by
  rw [forall_known_iff]
  constructor
  · rintro ⟨b, h⟩
    obtain ⟨signers, hsigners, hknown, _⟩ := answered.checkQuorum_eq_ok.1 h
    exact ⟨signers, hsigners, hknown⟩
  · rintro ⟨signers, hsigners, hknown⟩
    exact ⟨_, answered.checkQuorum_eq_ok.2 ⟨signers, hsigners, hknown, rfl⟩⟩

end Answered

/-! ## Later on -/

/-- Known signatures that come later do not undo a quorum. -/
theorem Gains.quorum_lasts {sigs : List Signature} (h : Gains c sigs d)
    (hknown : ∀ sig ∈ sigs, c.Known policy sig) {chain : Selector} {v v' u u' : σ}
    (before : c.Answers chain v policy v') (after : d.Answers chain u policy u')
    (hreached : (outcome (c.checkQuorum chain) v).1 = .ok true) :
    (outcome (d.checkQuorum chain) u).1 = .ok true := by
  obtain ⟨earlier, hearlier, hmembers, hconsensus⟩ := before.checkQuorum_eq_ok.1 hreached
  obtain ⟨later, hlater, hmembers'⟩ := exists_mapM_eq_ok.2 hknown
  have hsigners : d.signers = .ok (earlier ++ later) := by
    rw [h.signers]
    exact mapM_append_eq_ok hearlier hlater
  refine after.checkQuorum_eq_ok.2 ⟨earlier ++ later, hsigners, ?_, ?_⟩
  · intro a ha
    rcases List.mem_append.1 ha with ha | ha
    · exact hmembers a ha
    · exact hmembers' a ha
  · exact Policy.atConsensus_mono (List.subset_append_left earlier later) hconsensus

/-- An unknown signature is still there and still unknown. -/
theorem Gains.fault_stays {sigs : List Signature} (h : Gains c sigs d) {sig : Signature}
    (hsig : sig ∈ c.proposal.signatures) (hunknown : ¬ c.Known policy sig) {chain : Selector}
    {u u' : σ} (after : d.Answers chain u policy u') (b : Bool) :
    (outcome (d.checkQuorum chain) u).1 ≠ .ok b := by
  intro hb
  have hknown := after.checkQuorum_answers.1 ⟨b, hb⟩ sig
  rw [h.signatures, Known, h.signerOf] at hknown
  exact hunknown (hknown (List.mem_append_left _ hsig))

/-- On a chain whose policy stays as it is, a quorum stays reached while members of the policy sign.
The check fails exactly when a signature leads to nobody or to a stranger, and then it never comes to
an answer again, whoever signs. -/
theorem quorum_lasts_and_strangers_spoil_it {events : List (Action σ × Except Error Answer)}
    {chain : Selector} {v v' : σ} (before : c.Answers chain v policy v')
    (course : c.Course events d) :
    ((outcome (c.checkQuorum chain) v).1 = .ok true →
      (∀ sig ∈ added events, c.Known policy sig) →
      ∀ u u', d.Answers chain u policy u' → (outcome (d.checkQuorum chain) u).1 = .ok true) ∧
    ((∃ e, (outcome (c.checkQuorum chain) v).1 = .error e) ↔
      ∃ sig ∈ c.proposal.signatures, (∃ e, c.signerOf sig = .error e) ∨
        ∃ a, c.signerOf sig = .ok a ∧ a ∉ policy.allMembers) ∧
    ((∃ e, (outcome (c.checkQuorum chain) v).1 = .error e) →
      ∀ u, (∀ other u', d.Answers chain u other u' → other = policy) →
        ∀ b, (outcome (d.checkQuorum chain) u).1 ≠ .ok b) := by
  have hfault : (∃ e, (outcome (c.checkQuorum chain) v).1 = .error e) ↔
      ∃ sig ∈ c.proposal.signatures, ¬ c.Known policy sig := by
    have hanswer := before.checkQuorum_answers
    rw [← not_iff_not] at hanswer
    push Not at hanswer
    rw [← hanswer]
    cases (outcome (c.checkQuorum chain) v).1 <;> simp
  refine ⟨fun hreached hknown u u' after => ?_, ?_, fun herror u same b hb => ?_⟩
  · exact course.gains.quorum_lasts hknown before after hreached
  · simp only [hfault, not_known_iff]
  · obtain ⟨sig, hsig, hunknown⟩ := hfault.1 herror
    -- an answer now would be the answer of the same policy
    obtain ⟨other, _, ⟨u', after⟩, _⟩ := checkQuorum_fst_eq_ok.1 hb
    obtain rfl := same other u' after
    exact course.gains.fault_stays hsig hunknown after b hb

/-- A policy asks for one of two keyholders. It is content when the first has signed, and still when
the second has signed too. A signature that leads to nobody spoils that, also when the first signs
again behind it. -/
theorem blank_signature_spoils_quorum : ∃ (policy : Policy) (c d e : Ceremony Unit)
    (later signed : List (Action Unit × Except Error Answer)),
    policy.quorum = 1 ∧ c.Answers Sample.one () policy () ∧
      c.signers = .ok [Sample.firstKey.address] ∧
      (outcome (c.checkQuorum Sample.one) ()).1 = .ok true ∧
      c.Course later d ∧ (added later).length = 1 ∧
      d.signers = .ok [Sample.firstKey.address, Sample.secondKey.address] ∧
      (outcome (d.checkQuorum Sample.one) ()).1 = .ok true ∧
      (d.addSignature Sample.signature).Answers Sample.one () policy () ∧
      (d.addSignature Sample.signature).Course signed e ∧ (added signed).length = 1 ∧
      ∀ b, (outcome (e.checkQuorum Sample.one) ()).1 ≠ .ok b := by
  let policy : Policy := .node 1 [Sample.firstKey.address, Sample.secondKey.address] []
  obtain ⟨c₀, hproposal, hdigest, hanswers⟩ := exists_sample_holding policy
  obtain ⟨first, second, hfirst, hsecond, hsigners, hsigners'⟩ :=
    exists_signed_sample hproposal hdigest
  have hvalid : c₀.proposal.validateAt 0 = .ok () := by
    rw [hproposal]
    exact Sample.valid
  let c := c₀.addSignature first
  let d := c.addSignature second
  have before : c.Answers Sample.one () policy () := hanswers
  have hreached : (outcome (c.checkQuorum Sample.one) ()).1 = .ok true :=
    checkQuorum_fst_eq_ok.2 ⟨policy, _, ⟨(), before⟩, hsigners, Policy.authorizes_either⟩
  have later : c.Course _ d := Course.start.signed () (sign_eq_ok.2 ⟨hvalid, hsecond⟩)
  have signed : (d.addSignature Sample.signature).Course _ _ :=
    Course.start.signed () (sign_eq_ok.2 ⟨hvalid, hfirst⟩)
  have spoiled : (d.addSignature Sample.signature).Answers Sample.one () policy () := hanswers
  obtain ⟨hlasts, _, _⟩ := quorum_lasts_and_strangers_spoil_it before later
  obtain ⟨_, hfault, hspoils⟩ := quorum_lasts_and_strangers_spoil_it spoiled signed
  refine ⟨policy, c, d, _, _, _, rfl, before, hsigners, hreached, later, rfl, hsigners', ?_, spoiled,
    signed, rfl, ?_⟩
  · have hmember : Sample.secondKey.address ∈ policy.allMembers :=
      (Policy.authorizes_eq_ok.1 (Policy.authorizes_both (by decide))).1 _
        (List.mem_cons_of_mem _ (List.mem_singleton_self _))
    refine hlasts hreached (fun sig hsig => ?_) () () hanswers
    rw [List.mem_singleton.1 hsig]
    exact ⟨_, mapError_eq_ok.2 (PrivateKey.recover_signature hsecond), hmember⟩
  · have hblank : Sample.signature ∈ (d.addSignature Sample.signature).proposal.signatures :=
      List.mem_append_right _ (List.mem_singleton_self _)
    refine hspoils (hfault.2 ⟨_, hblank, .inl ⟨_, rfl⟩⟩) () fun other u' hother => ?_
    exact Answers.unique hanswers hother

end Quorate.Ceremony
