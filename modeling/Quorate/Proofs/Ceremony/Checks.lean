/-
Checks: what it takes for a check of the signatures to come to an answer. The contract of the chain
is asked for its policy, everyone who signed is recovered, and the policy decides. Chains are
checked one after the other, each on the world that the one before leaves.
-/
import Quorate.Ceremony.Quorum
import Quorate.Proofs.Ceremony.Committed
import Quorate.Proofs.Outcome
import Quorate.Proofs.Signature.Keys

namespace Quorate.Ceremony

variable {σ : Type}

/-! ## One chain -/

/-- The contract of a chain, asked for its policy on the world `w`, answers and leaves the world
`w'`. -/
def Answers (c : Ceremony σ) (chain : Selector) (w : σ) (policy : Policy) (w' : σ) : Prop :=
  ∃ x m, c.inspector chain = .ok x ∧ c.proposal.chains.get? chain = some m ∧
    outcome (x.policy m.contract) w = (.ok policy, w')

/-- There is one answer on a world. -/
theorem Answers.unique {c : Ceremony σ} {chain : Selector} {w u u' : σ} {policy policy' : Policy}
    (h : c.Answers chain w policy u) (h' : c.Answers chain w policy' u') : policy' = policy := by
  obtain ⟨x, m, hx, hm, hpolicy⟩ := h
  obtain ⟨x', m', hx', hm', hpolicy'⟩ := h'
  obtain rfl := Except.ok.inj (hx.symm.trans hx')
  obtain rfl := Option.some.inj (hm.symm.trans hm')
  exact (Except.ok.inj (Prod.mk.inj (hpolicy.symm.trans hpolicy')).1).symm

/-- Where holders of keys have signed, the signers are the addresses of the keys. -/
theorem signers_of_signed {c : Ceremony σ} (keys : List PrivateKey)
    (h : List.Forall₂ (fun key sig => key.signer.signature c.signingDigest = .ok sig) keys
      c.proposal.signatures) : c.signers = .ok (keys.map PrivateKey.address) := by
  unfold signers
  rw [mapM_eq_ok, List.forall₂_map_right_iff]
  exact (h.imp fun key sig hsig => mapError_eq_ok.2 (PrivateKey.recover_signature hsig)).flip

theorem authorized_eq_ok {policy : Policy} {signers : List Address} {reached : Bool} :
    authorized policy signers = .ok reached ↔ policy.authorizes signers = .ok reached :=
  mapError_eq_ok

/-- The check of a chain is the decision of its policy on those who signed. -/
theorem checkQuorum_eq_ok {c : Ceremony σ} {chain : Selector} {w w' : σ} {reached : Bool} :
    outcome (c.checkQuorum chain) w = (.ok reached, w') ↔
      ∃ policy signers, c.Answers chain w policy w' ∧ c.signers = .ok signers ∧
        policy.authorizes signers = .ok reached := by
  have hmetadata : ∀ {m}, Commitment.metadata c.proposal chain = .ok m ↔
      c.proposal.chains.get? chain = some m := mapError_eq_ok.trans Proposal.metadata_eq_ok
  unfold checkQuorum
  constructor
  · intro h
    obtain ⟨x, hx, h⟩ := outcome_lift_bind_eq_ok.1 h
    obtain ⟨m, hm, h⟩ := outcome_lift_bind_eq_ok.1 h
    obtain ⟨signers, hsigners, h⟩ := outcome_lift_bind_eq_ok.1 h
    obtain ⟨policy, w₁, hpolicy, h⟩ := outcome_bind_eq_ok.1 h
    rw [outcome_lift, Prod.mk.injEq, authorized_eq_ok] at h
    obtain ⟨hreached, rfl⟩ := h
    exact ⟨policy, signers, ⟨x, m, hx, hmetadata.1 hm, outcome_asking_eq_ok.1 hpolicy⟩, hsigners,
      hreached⟩
  · rintro ⟨policy, signers, ⟨x, m, hx, hm, hpolicy⟩, hsigners, hreached⟩
    refine outcome_lift_bind_eq_ok.2 ⟨x, hx, ?_⟩
    refine outcome_lift_bind_eq_ok.2 ⟨m, hmetadata.2 hm, ?_⟩
    refine outcome_lift_bind_eq_ok.2 ⟨signers, hsigners, ?_⟩
    refine outcome_bind_eq_ok.2 ⟨policy, w', outcome_asking_eq_ok.2 hpolicy, ?_⟩
    rw [outcome_lift, authorized_eq_ok.2 hreached]

theorem checkQuorum_fst_eq_ok {c : Ceremony σ} {chain : Selector} {w : σ} {reached : Bool} :
    (outcome (c.checkQuorum chain) w).1 = .ok reached ↔
      ∃ policy signers, (∃ w', c.Answers chain w policy w') ∧ c.signers = .ok signers ∧
        policy.authorizes signers = .ok reached := by
  constructor
  · intro h
    obtain ⟨policy, signers, hanswers, hsigners, hreached⟩ := checkQuorum_eq_ok.1 (Prod.ext h rfl)
    exact ⟨policy, signers, ⟨_, hanswers⟩, hsigners, hreached⟩
  · rintro ⟨policy, signers, ⟨w', hanswers⟩, hsigners, hreached⟩
    rw [checkQuorum_eq_ok.2 ⟨policy, signers, hanswers, hsigners, hreached⟩]

/-- Where the contract answers, the check comes to what the policy says of those who signed. -/
theorem Answers.checkQuorum {c : Ceremony σ} {chain : Selector} {w w' : σ} {policy : Policy}
    (h : c.Answers chain w policy w') :
    (outcome (c.checkQuorum chain) w).1 = c.signers >>= authorized policy := by
  obtain ⟨x, m, hx, hm, hpolicy⟩ := h
  have hmetadata : Commitment.metadata c.proposal chain = .ok m :=
    mapError_eq_ok.2 (Proposal.metadata_eq_ok.2 hm)
  unfold Ceremony.checkQuorum
  simp only [outcome_lift_bind, hx, hmetadata]
  cases c.signers with
  | error e => rfl
  | ok signers =>
    simp only [outcome_bind, outcome_asking_eq_ok.2 hpolicy, outcome_lift]
    rfl

/-! ## All chains -/

/-- A relation between worlds holds along a list of chains: at each from the world that the one
before leaves. -/
def Along (P : Selector → σ → σ → Prop) : List Selector → σ → σ → Prop
  | [], w, w' => w' = w
  | chain :: rest, w, w'' => ∃ w', P chain w w' ∧ Along P rest w' w''

theorem along_congr {P Q : Selector → σ → σ → Prop} (h : ∀ chain w w', P chain w w' ↔ Q chain w w') :
    ∀ {chains : List Selector} {w w' : σ}, Along P chains w w' ↔ Along Q chains w w'
  | [], _, _ => Iff.rfl
  | chain :: _, w, _ => exists_congr fun w' => and_congr (h chain w w') (along_congr h)

theorem requireQuorum_eq_ok {c : Ceremony σ} :
    ∀ {chains : List Selector} {w w' : σ}, outcome (c.requireQuorum chains) w = (.ok (), w') ↔
      Along (fun chain w w' => outcome (c.checkQuorum chain) w = (.ok true, w')) chains w w'
  | [], w, w' => by
    unfold requireQuorum Along
    rw [outcome_pure, Prod.mk.injEq]
    simp [eq_comm]
  | chain :: rest, w, w'' => by
    unfold requireQuorum Along
    rw [outcome_bind_eq_ok]
    constructor
    · rintro ⟨reached, w', hcheck, hrest⟩
      cases reached with
      | false => cases hrest
      | true => exact ⟨w', hcheck, requireQuorum_eq_ok.1 hrest⟩
    · rintro ⟨w', hcheck, hrest⟩
      exact ⟨true, w', hcheck, requireQuorum_eq_ok.2 hrest⟩

/-- The signatures suffice when they do for each chain of the proposal, ascending; there is no other
answer. -/
theorem validateSignatures_eq_ok {c : Ceremony σ} {w w' : σ} {b : Bool} :
    outcome c.validateSignatures w = (.ok b, w') ↔ b = true ∧
      Along (fun chain w w' => outcome (c.checkQuorum chain) w = (.ok true, w'))
        c.proposal.selectors w w' := by
  unfold validateSignatures
  rw [outcome_bind_eq_ok, ← requireQuorum_eq_ok]
  constructor
  · rintro ⟨_, w₁, hrequire, hb⟩
    cases hb
    exact ⟨rfl, hrequire⟩
  · rintro ⟨rfl, hrequire⟩
    exact ⟨(), w', hrequire, rfl⟩

/-! ## The sample -/

/-- The sample starts, and its contracts may give any answers. -/
theorem exists_sample (answer : Selector → Except Complaint Policy) : ∃ c : Ceremony Unit,
    c.proposal = Sample.proposal ∧ c.signingDigest = Sample.payload ∧
      ∀ chain x, c.inspector chain = .ok x ↔
        chain ∈ c.proposal.selectors ∧ Sample.answering (answer chain) = x := by
  obtain ⟨c, hc⟩ : ∃ c : Ceremony Unit, start Sample.proposal Sample.encoders = .ok c := ⟨_, rfl⟩
  have hproposal := proposal_of_start hc
  have hdigest := signingDigest_of_sample hc
  refine ⟨c.withInspectors (c.proposal.chains.map fun chain _ => Sample.answering (answer chain)),
    hproposal, hdigest, fun chain x => ?_⟩
  refine Table.find_eq_ok.trans ?_
  rw [Table.get?_map, Option.map_eq_some_iff]
  constructor
  · rintro ⟨m, hm, hx⟩
    exact ⟨Table.mem_keys.2 ⟨m, hm⟩, hx⟩
  · rintro ⟨hchain, hx⟩
    obtain ⟨m, hm⟩ := Table.mem_keys.1 hchain
    exact ⟨m, hm, hx⟩

/-- Its contracts may hold any policy. -/
theorem exists_sample_holding (policy : Policy) : ∃ c : Ceremony Unit,
    c.proposal = Sample.proposal ∧ c.signingDigest = Sample.payload ∧
      c.Answers Sample.one () policy () := by
  obtain ⟨c, hproposal, hdigest, hinspector⟩ := exists_sample fun _ => .ok policy
  have hchain : c.proposal.chains.get? Sample.one = some ⟨7, "0x01", none⟩ := by
    rw [hproposal]
    rfl
  exact ⟨c, hproposal, hdigest, _, _,
    (hinspector _ _).2 ⟨Table.mem_keys.2 ⟨_, hchain⟩, rfl⟩, hchain, rfl⟩

/-- Two keyholders sign the sample, one behind the other. -/
theorem exists_signed_sample {c : Ceremony σ} (hproposal : c.proposal = Sample.proposal)
    (hdigest : c.signingDigest = Sample.payload) : ∃ first second,
    Sample.firstKey.signer.signature c.signingDigest = .ok first ∧
      Sample.secondKey.signer.signature c.signingDigest = .ok second ∧
      (c.addSignature first).signers = .ok [Sample.firstKey.address] ∧
      ((c.addSignature first).addSignature second).signers =
        .ok [Sample.firstKey.address, Sample.secondKey.address] := by
  have hnone : c.proposal.signatures = [] := congrArg Proposal.signatures hproposal
  obtain ⟨first, hfirst⟩ := Sample.exists_signature_firstKey
  obtain ⟨second, hsecond⟩ := Sample.exists_signature_secondKey
  rw [← hdigest] at hfirst hsecond
  refine ⟨first, second, hfirst, hsecond, signers_of_signed [Sample.firstKey] ?_,
    signers_of_signed [Sample.firstKey, Sample.secondKey] ?_⟩
  · show List.Forall₂ _ _ (c.proposal.signatures ++ [first])
    rw [hnone]
    exact .cons hfirst .nil
  · show List.Forall₂ _ _ (c.proposal.signatures ++ [first] ++ [second])
    rw [hnone]
    exact .cons hfirst (.cons hsecond .nil)

end Quorate.Ceremony
