/-
The verdict: whether the signatures of a ceremony authorise its root on every chain of the proposal,
where each contract has one answer to the question for its policy. Chains are judged in ascending
order. On each one the faults come in this order: no inspector, a signature that leads to nobody, a
contract that does not answer, a signer whom the policy does not know, a quorum that is not reached.
The first fault of the least chain that has one is the error, and where no chain has one the
signatures suffice.
-/
import Quorate.Proofs.Ceremony.Checks
import Quorate.Proofs.Policy.Monotone
import Quorate.Proofs.Signature.Keys
import Quorate.Proofs.Sorting

namespace Quorate.Ceremony

variable {σ : Type}

/-! ## What there is to a chain -/

/-- The contract of each chain that has an inspector gives the same answer whenever it is asked for
its policy. -/
def Settled (c : Ceremony σ) (answer : Selector → Except Complaint Policy) : Prop :=
  ∀ chain x m, c.inspector chain = .ok x → c.proposal.chains.get? chain = some m →
    ∀ w, (outcome (x.policy m.contract) w).1 = answer chain

/-- Every signature is traced to its signer. -/
def Recovered (c : Ceremony σ) (signers : List Address) : Prop :=
  List.Forall₂ (fun sig a => sig.recover c.signingDigest = .ok a) c.proposal.signatures signers

/-- The signatures suffice for a chain: it has an inspector, its contract answers with a policy, the
policy knows all who signed, and they are at consensus. -/
structure Suffices (c : Ceremony σ) (answer : Selector → Except Complaint Policy) (chain : Selector)
    (policy : Policy) (signers : List Address) : Prop where
  inspected : ∃ x, c.inspector chain = .ok x
  recovered : c.Recovered signers
  answered : answer chain = .ok policy
  known : ∀ a ∈ signers, a ∈ policy.allMembers
  reached : policy.atConsensus signers = true

/-- The first fault on a chain, in the order in which they are looked for. -/
inductive Fails (c : Ceremony σ) (answer : Selector → Except Complaint Policy) (chain : Selector) :
    Error → Prop
  | noInspectors : c.inspectors = none → Fails c answer chain .noInspectors
  | noInspector {inspectors : Inspectors σ} : c.inspectors = some inspectors →
      inspectors.get? chain = none → Fails c answer chain (.noInspector chain)
  | unrecoverable {x : Inspector σ} {before after : List Signature} {earlier : List Address}
      {sig : Signature} {e : SignatureError} : c.inspector chain = .ok x →
      c.proposal.signatures = before ++ sig :: after →
      List.Forall₂ (fun sig a => sig.recover c.signingDigest = .ok a) before earlier →
      sig.recover c.signingDigest = .error e → Fails c answer chain (.signature e)
  | complaint {x : Inspector σ} {signers : List Address} {complaint : Complaint} :
      c.inspector chain = .ok x → c.Recovered signers → answer chain = .error complaint →
      Fails c answer chain (.collaborator complaint)
  | stranger {x : Inspector σ} {policy : Policy} {before after : List Address} {a : Address} :
      c.inspector chain = .ok x → c.Recovered (before ++ a :: after) →
      answer chain = .ok policy → (∀ b ∈ before, b ∈ policy.allMembers) →
      a ∉ policy.allMembers → Fails c answer chain (.unknownSigner a)
  | short {x : Inspector σ} {policy : Policy} {signers : List Address} :
      c.inspector chain = .ok x → c.Recovered signers → answer chain = .ok policy →
      (∀ a ∈ signers, a ∈ policy.allMembers) → policy.atConsensus signers = false →
      Fails c answer chain (.quorumNotReached chain)

variable {c : Ceremony σ} {answer : Selector → Except Complaint Policy}

/-! ## The parts of a check -/

theorem signerOf_eq_ok {sig : Signature} {a : Address} :
    c.signerOf sig = .ok a ↔ sig.recover c.signingDigest = .ok a := mapError_eq_ok

theorem signers_eq_ok {signers : List Address} : c.signers = .ok signers ↔ c.Recovered signers := by
  unfold Ceremony.signers Recovered
  rw [mapM_eq_ok]
  simp only [signerOf_eq_ok]

/-- The first signature that leads to nobody is the error. -/
theorem signers_eq_error {e : Error} : c.signers = .error e ↔
    ∃ before sig after earlier e', c.proposal.signatures = before ++ sig :: after ∧
      List.Forall₂ (fun sig a => sig.recover c.signingDigest = .ok a) before earlier ∧
      sig.recover c.signingDigest = .error e' ∧ Error.signature e' = e := by
  unfold Ceremony.signers signerOf
  rw [mapM_eq_error]
  simp only [mapM_eq_ok, mapError_eq_ok, mapError_eq_error]
  constructor
  · rintro ⟨before, sig, after, earlier, hsplit, hearlier, e', he', he⟩
    exact ⟨before, sig, after, earlier, e', hsplit, hearlier, he', he⟩
  · rintro ⟨before, sig, after, earlier, e', hsplit, hearlier, he', he⟩
    exact ⟨before, sig, after, earlier, hsplit, hearlier, e', he', he⟩

/-- A chain without an inspector says whether there are any. -/
theorem inspector_eq_error {chain : Selector} {e : Error} : c.inspector chain = .error e ↔
    (c.inspectors = none ∧ e = .noInspectors) ∨
      ∃ inspectors, c.inspectors = some inspectors ∧ inspectors.get? chain = none ∧
        e = .noInspector chain := by
  unfold inspector
  cases c.inspectors with
  | none => simp [eq_comm]
  | some inspectors =>
    unfold Table.find
    cases h : inspectors.get? chain <;> simp [h, eq_comm]

/-! ## One chain -/

/-- What the check of a chain comes to, the contract's answer being given. -/
def verdict (c : Ceremony σ) (answer : Selector → Except Complaint Policy) (chain : Selector) :
    Except Error Bool := do
  let _ ← c.inspector chain
  let signers ← c.signers
  let policy ← (answer chain).mapError .collaborator
  authorized policy signers

theorem Settled.checkQuorum (hsettled : c.Settled answer) {chain : Selector}
    (hchain : chain ∈ c.proposal.selectors) (w : σ) :
    (outcome (c.checkQuorum chain) w).1 = c.verdict answer chain := by
  obtain ⟨m, hm⟩ := Table.mem_keys.1 hchain
  have hmetadata : Commitment.metadata c.proposal chain = .ok m :=
    mapError_eq_ok.2 (Proposal.metadata_eq_ok.2 hm)
  unfold Ceremony.checkQuorum verdict
  rw [outcome_lift_bind]
  cases hx : c.inspector chain with
  | error e => rfl
  | ok x =>
    have hanswer := hsettled chain x m hx hm w
    simp only [outcome_lift_bind, hmetadata, ok_bind]
    cases c.signers with
    | error e => rfl
    | ok signers =>
      simp only [outcome_bind, outcome_asking, ok_bind, ← hanswer]
      cases (outcome (x.policy m.contract) w).1 with
      | error complaint => rfl
      | ok policy => rfl

theorem verdict_eq_ok {chain : Selector} {b : Bool} : c.verdict answer chain = .ok b ↔
    ∃ x signers policy, c.inspector chain = .ok x ∧ c.Recovered signers ∧
      answer chain = .ok policy ∧ (∀ a ∈ signers, a ∈ policy.allMembers) ∧
      policy.atConsensus signers = b := by
  simp only [verdict, bind_eq_ok, signers_eq_ok, mapError_eq_ok, authorized_eq_ok,
    Policy.authorizes_eq_ok]
  constructor
  · rintro ⟨x, hx, signers, hsigners, policy, hpolicy, hknown, hb⟩
    exact ⟨x, signers, policy, hx, hsigners, hpolicy, hknown, hb⟩
  · rintro ⟨x, signers, policy, hx, hsigners, hpolicy, hknown, hb⟩
    exact ⟨x, hx, signers, hsigners, policy, hpolicy, hknown, hb⟩

/-- A verdict that is an error is a fault on the chain other than a quorum that is not reached. -/
theorem fails_of_verdict_eq_error {chain : Selector} {e : Error}
    (h : c.verdict answer chain = .error e) : Fails c answer chain e := by
  rcases bind_eq_error.1 h with hinspector | ⟨x, hx, h⟩
  · rcases inspector_eq_error.1 hinspector with ⟨hnone, rfl⟩ | ⟨inspectors, hsome, hget, rfl⟩
    · exact .noInspectors hnone
    · exact .noInspector hsome hget
  rcases bind_eq_error.1 h with hsigners | ⟨signers, hsigners, h⟩
  · obtain ⟨before, sig, after, earlier, e', hsplit, hearlier, he', rfl⟩ :=
      signers_eq_error.1 hsigners
    exact .unrecoverable hx hsplit hearlier he'
  rw [signers_eq_ok] at hsigners
  rcases bind_eq_error.1 h with hanswer | ⟨policy, hanswer, h⟩
  · obtain ⟨complaint, hcomplaint, rfl⟩ := mapError_eq_error.1 hanswer
    exact .complaint hx hsigners hcomplaint
  rw [mapError_eq_ok] at hanswer
  obtain ⟨a, hauthorizes, rfl⟩ := mapError_eq_error.1 h
  obtain ⟨before, after, rfl, hknown, hstranger⟩ := Policy.authorizes_eq_error.1 hauthorizes
  exact .stranger hx hsigners hanswer hknown hstranger

theorem Fails.verdict {chain : Selector} {e : Error} (h : Fails c answer chain e) :
    c.verdict answer chain = .error e ∨
      (c.verdict answer chain = .ok false ∧ e = .quorumNotReached chain) := by
  cases h with
  | noInspectors hnone =>
    exact .inl (bind_eq_error.2 (.inl (inspector_eq_error.2 (.inl ⟨hnone, rfl⟩))))
  | noInspector hsome hget =>
    exact .inl (bind_eq_error.2 (.inl (inspector_eq_error.2 (.inr ⟨_, hsome, hget, rfl⟩))))
  | unrecoverable hx hsplit hearlier he =>
    refine .inl (bind_eq_error.2 (.inr ⟨_, hx, bind_eq_error.2 (.inl ?_)⟩))
    exact signers_eq_error.2 ⟨_, _, _, _, _, hsplit, hearlier, he, rfl⟩
  | complaint hx hsigners hcomplaint =>
    left
    unfold Ceremony.verdict
    rw [hx, ok_bind, signers_eq_ok.2 hsigners, ok_bind, hcomplaint]
    rfl
  | @stranger x policy before after a hx hsigners hanswer hknown hstranger =>
    left
    have hauthorizes : policy.authorizes (before ++ a :: after) = .error a :=
      Policy.authorizes_eq_error.2 ⟨before, after, rfl, hknown, hstranger⟩
    unfold Ceremony.verdict authorized
    rw [hx, ok_bind, signers_eq_ok.2 hsigners, ok_bind, hanswer]
    show (policy.authorizes _).mapError _ = _
    rw [hauthorizes]
    rfl
  | short hx hsigners hanswer hknown hshort =>
    exact .inr ⟨verdict_eq_ok.2 ⟨_, _, _, hx, hsigners, hanswer, hknown, hshort⟩, rfl⟩

/-- What a chain contributes to the check of all: nothing, or its fault. -/
def ruling (c : Ceremony σ) (answer : Selector → Except Complaint Policy) (chain : Selector) :
    Except Error Unit := do
  let reached ← c.verdict answer chain
  if reached then .ok () else .error (.quorumNotReached chain)

theorem ruling_eq_ok {chain : Selector} : c.ruling answer chain = .ok () ↔
    ∃ policy signers, c.Suffices answer chain policy signers := by
  have htrue : c.ruling answer chain = .ok () ↔ c.verdict answer chain = .ok true := by
    unfold ruling
    cases c.verdict answer chain with
    | error e => simp [bind, Except.bind]
    | ok reached => cases reached <;> simp
  rw [htrue, verdict_eq_ok]
  constructor
  · rintro ⟨x, signers, policy, hx, hsigners, hanswer, hknown, hreached⟩
    exact ⟨policy, signers, ⟨x, hx⟩, hsigners, hanswer, hknown, hreached⟩
  · rintro ⟨policy, signers, ⟨x, hx⟩, hsigners, hanswer, hknown, hreached⟩
    exact ⟨x, signers, policy, hx, hsigners, hanswer, hknown, hreached⟩

theorem ruling_eq_error {chain : Selector} {e : Error} :
    c.ruling answer chain = .error e ↔ Fails c answer chain e := by
  unfold ruling
  constructor
  · intro h
    rcases bind_eq_error.1 h with hverdict | ⟨reached, hverdict, h⟩
    · exact fails_of_verdict_eq_error hverdict
    · cases reached with
      | true => cases h
      | false =>
        cases h
        obtain ⟨x, signers, policy, hx, hsigners, hanswer, hknown, hshort⟩ :=
          verdict_eq_ok.1 hverdict
        exact .short hx hsigners hanswer hknown hshort
  · intro h
    rcases h.verdict with hverdict | ⟨hverdict, rfl⟩
    · rw [hverdict]
      rfl
    · rw [hverdict]
      rfl

/-! ## All chains -/

/-- The check of chains one after the other comes to their rulings in turn, whatever the world. -/
theorem Settled.requireQuorum (hsettled : c.Settled answer) : ∀ {chains : List Selector} (w : σ),
    (∀ chain ∈ chains, chain ∈ c.proposal.selectors) →
      (outcome (c.requireQuorum chains) w).1 = (fun _ => ()) <$> chains.mapM (c.ruling answer)
  | [], _, _ => rfl
  | chain :: rest, w, h => by
    obtain ⟨hchain, hrest⟩ := List.forall_mem_cons.1 h
    have hcheck := hsettled.checkQuorum hchain w
    unfold Ceremony.requireQuorum
    rw [outcome_bind, List.mapM_cons, ruling, ← hcheck]
    rcases outcome (c.checkQuorum chain) w with ⟨_ | reached, w'⟩
    · rfl
    · cases reached with
      | false => rfl
      | true =>
        have ih := hsettled.requireQuorum w' hrest
        simp only [if_true, ok_bind, ih]
        cases rest.mapM (c.ruling answer) <;> rfl

theorem Settled.validateSignatures (hsettled : c.Settled answer) (w : σ) :
    (outcome c.validateSignatures w).1 =
      (fun _ => true) <$> c.proposal.selectors.mapM (c.ruling answer) := by
  have hrequire := hsettled.requireQuorum w fun _ h => h
  unfold Ceremony.validateSignatures
  rw [outcome_bind]
  rcases hrun : outcome (c.requireQuorum c.proposal.selectors) w with ⟨_ | _, w'⟩
  all_goals
    rw [hrun] at hrequire
    revert hrequire
    cases c.proposal.selectors.mapM (c.ruling answer) <;> intro h <;> cases h
    rfl

/-- Where each contract has one answer, the check of the signatures never comes to no. It comes to
yes exactly if they suffice for every chain of the proposal. Otherwise it comes to the first fault
on the least chain for which they do not suffice. -/
theorem signatures_suffice_or_first_fault_is_named (hsettled : c.Settled answer) (w : σ) :
    (outcome c.validateSignatures w).1 ≠ .ok false ∧
      ((outcome c.validateSignatures w).1 = .ok true ↔ ∀ chain ∈ c.proposal.selectors,
        ∃ policy signers, c.Suffices answer chain policy signers) ∧
      ∀ e, (outcome c.validateSignatures w).1 = .error e ↔ ∃ chain ∈ c.proposal.selectors,
        (∀ other ∈ c.proposal.selectors, compare other chain = .lt →
          ∃ policy signers, c.Suffices answer other policy signers) ∧
        Fails c answer chain e := by
  have hascending : c.proposal.selectors.Pairwise fun a b => compare a b = .lt :=
    Table.keys_ascending _
  have hall : ∀ chains : List Selector, (∃ us, chains.mapM (c.ruling answer) = .ok us) ↔
      ∀ chain ∈ chains, ∃ policy signers, c.Suffices answer chain policy signers := by
    intro chains
    have hok := exists_mapM_eq_ok (f := c.ruling answer) (P := fun _ => True) (l := chains)
    simp only [implies_true, and_true] at hok
    rw [hok]
    refine forall₂_congr fun chain _ => ⟨?_, fun h => ⟨(), ruling_eq_ok.2 h⟩⟩
    rintro ⟨⟨⟩, h⟩
    exact ruling_eq_ok.1 h
  rw [hsettled.validateSignatures w]
  refine ⟨fun h => ?_, ?_, fun e => ?_⟩
  · cases hrun : c.proposal.selectors.mapM (c.ruling answer) <;> rw [hrun] at h <;> cases h
  · rw [← hall]
    cases c.proposal.selectors.mapM (c.ruling answer) with
    | error e => simp [Functor.map, Except.map]
    | ok us => simp
  · rw [map_eq_error, mapM_eq_error]
    have hsplit := fun chain => exists_split_of_ascending hascending (a := chain)
      (P := fun other => ∃ policy signers, c.Suffices answer other policy signers)
    constructor
    · rintro ⟨before, chain, after, us, heq, hbefore, hfails⟩
      obtain ⟨hmem, hless⟩ := (hsplit chain).1 ⟨before, after, heq, (hall before).1 ⟨us, hbefore⟩⟩
      exact ⟨chain, hmem, hless, ruling_eq_error.1 hfails⟩
    · rintro ⟨chain, hmem, hless, hfails⟩
      obtain ⟨before, after, heq, hbefore⟩ := (hsplit chain).2 ⟨hmem, hless⟩
      obtain ⟨us, hus⟩ := (hall before).2 hbefore
      exact ⟨before, chain, after, us, heq, hus, ruling_eq_error.2 hfails⟩

/-- The first chain asks for one of two keyholders and the second for both. When the first has signed,
the quorum of the second chain is not reached, and when both have, the signatures suffice. A signature
that leads to nobody shows on the first chain. -/
theorem short_quorum_gives_way_to_bad_signature : ∃ (c d : Ceremony Unit)
    (answer : Selector → Except Complaint Policy),
    c.signers = .ok [Sample.firstKey.address] ∧
      d.signers = .ok [Sample.firstKey.address, Sample.secondKey.address] ∧
      c.Settled answer ∧ d.Settled answer ∧ (d.addSignature Sample.signature).Settled answer ∧
      (outcome c.validateSignatures ()).1 = .error (.quorumNotReached Sample.two) ∧
      (outcome d.validateSignatures ()).1 = .ok true ∧
      (outcome (d.addSignature Sample.signature).validateSignatures ()).1 =
        .error (.signature Signature.malformed) := by
  let policy (quorum : UInt8) : Policy :=
    .node quorum [Sample.firstKey.address, Sample.secondKey.address] []
  let answer : Selector → Except Complaint Policy := fun chain =>
    .ok (if chain = Sample.one then policy 1 else policy 2)
  obtain ⟨c₀, hproposal, hdigest, hinspector⟩ := exists_sample answer
  obtain ⟨first, second, _, _, hsigners, hsigners'⟩ := exists_signed_sample hproposal hdigest
  have hchains : ∀ chain, chain ∈ c₀.proposal.selectors ↔ chain = Sample.one ∨ chain = Sample.two := by
    rw [hproposal]
    exact fun chain => List.mem_pair
  have hinspected : ∀ chain ∈ c₀.proposal.selectors, ∃ x, c₀.inspector chain = .ok x :=
    fun chain hchain => ⟨_, (hinspector _ _).2 ⟨hchain, rfl⟩⟩
  have hsettled : c₀.Settled answer := by
    intro chain x m hx _ w
    obtain ⟨_, rfl⟩ := (hinspector _ _).1 hx
    rfl
  let c := c₀.addSignature first
  let d := c.addSignature second
  have hrecovered := signers_eq_ok.1 hsigners
  have hrecovered' := signers_eq_ok.1 hsigners'
  have hone : Sample.one ∈ c₀.proposal.selectors := (hchains _).2 (.inl rfl)
  have htwo : Sample.two ∈ c₀.proposal.selectors := (hchains _).2 (.inr rfl)
  refine ⟨c, d, answer, hsigners, hsigners', hsettled, hsettled, hsettled, ?_, ?_, ?_⟩
  · obtain ⟨x, hx⟩ := hinspected _ htwo
    have hverdict := signatures_suffice_or_first_fault_is_named (c := c) hsettled ()
    refine (hverdict.2.2 _).2 ⟨Sample.two, htwo, fun other hother hless => ?_, ?_⟩
    · rcases (hchains _).1 hother with rfl | rfl
      · obtain ⟨hknown, hreached⟩ := Policy.authorizes_eq_ok.1 Policy.authorizes_either
        exact ⟨policy 1, _, hinspected _ hone, hrecovered, rfl, hknown, hreached⟩
      · cases hless
    · have hpolicy : answer Sample.two = .ok (policy 2) := rfl
      obtain ⟨hknown, hshort⟩ :=
        Policy.authorizes_eq_ok.1 (Policy.authorizes_short Sample.address_ne)
      exact .short hx hrecovered hpolicy hknown hshort
  · have hverdict := signatures_suffice_or_first_fault_is_named (c := d) hsettled ()
    refine hverdict.2.1.2 fun chain hchain => ?_
    rcases (hchains _).1 hchain with rfl | rfl
    · obtain ⟨hknown, hreached⟩ :=
        Policy.authorizes_eq_ok.1 (Policy.authorizes_both (q := 1) (by decide))
      exact ⟨policy 1, _, hinspected _ hone, hrecovered', rfl, hknown, hreached⟩
    · obtain ⟨hknown, hreached⟩ :=
        Policy.authorizes_eq_ok.1 (Policy.authorizes_both (q := 2) (by decide))
      exact ⟨policy 2, _, hinspected _ htwo, hrecovered', rfl, hknown, hreached⟩
  · obtain ⟨x, hx⟩ := hinspected _ hone
    have hverdict :=
      signatures_suffice_or_first_fault_is_named (c := d.addSignature Sample.signature) hsettled ()
    refine (hverdict.2.2 _).2 ⟨Sample.one, hone, fun other hother hless => ?_, ?_⟩
    · rcases (hchains _).1 hother with rfl | rfl <;> cases hless
    · have hsplit : (d.addSignature Sample.signature).proposal.signatures =
          d.proposal.signatures ++ Sample.signature :: [] := rfl
      exact .unrecoverable hx hsplit hrecovered' rfl

end Quorate.Ceremony
