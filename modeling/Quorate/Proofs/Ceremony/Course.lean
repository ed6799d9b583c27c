/-
Courses: whatever is done with a ceremony, in whatever order and with whatever outcome, what is to be
signed stays as it is. Signatures are the only thing that a ceremony gains, and only by being signed
or by having a signature handed in; what fails leaves it as it was. So the proposal, taken out again,
leads to the same tree.
-/
import Quorate.Ceremony.Preview
import Quorate.Ceremony.Quorum
import Quorate.Ceremony.Submission
import Quorate.Proofs.Ceremony.Gains
import Quorate.Proofs.Outcome
import Quorate.Proofs.Sample

namespace Quorate.Ceremony

variable {σ : Type}

/-! ## What is done with a ceremony -/

/-- A use of a ceremony, which may change the world but not the ceremony. -/
inductive Use where
  | sign (now : Int) (signer : Signer)
  | signers
  | sortedSignatures
  | nonceAt (index : Nat)
  | policies
  | counts
  | checkQuorum (chain : Selector)
  | validateSignatures
  | validatePolicies
  | simulate
  | decode
  | setRoot (chain : Selector)
  | execute (index : Nat)

/-- What an action brings when it does not fail. -/
inductive Answer where
  | done
  | signature (sig : Signature)
  | signatures (list : List Signature)
  | signers (list : List Address)
  | nonce (n : UInt64)
  | policies (list : List (Selector × Policy))
  | counts (list : List (Selector × UInt64))
  | reached (b : Bool)
  | calls (list : List DecodedCall)
  | receipt (r : Receipt)

def Use.step (c : Ceremony σ) : Use → Step σ Answer
  | .sign now signer => return .signature (← c.sign now signer)
  | .signers => return .signers (← c.signers)
  | .sortedSignatures => return .signatures (← c.sortedSignatures)
  | .nonceAt index => return .nonce (← c.nonceAt index)
  | .policies => return .policies (← c.policies)
  | .counts => return .counts (← c.counts)
  | .checkQuorum chain => return .reached (← c.checkQuorum chain)
  | .validateSignatures => return .reached (← c.validateSignatures)
  | .validatePolicies => do c.validatePolicies; return .done
  | .simulate => do c.simulate; return .done
  | .decode => return .calls (← c.decode)
  | .setRoot chain => return .receipt (← c.setRoot chain)
  | .execute index => return .receipt (← c.execute index)

/-- An action on a ceremony: a use, a signature that is made or handed in, or collaborators. -/
inductive Action (σ : Type) where
  | use (u : Use)
  | signAndAppend (now : Int) (signer : Signer)
  | addSignature (sig : Signature)
  | inspectors (is : Inspectors σ)
  | simulators (ss : Simulators σ)
  | decoders (ds : Decoders)
  | executors (xs : Executors σ)

/-- What an action comes to on a world: its answer or fault, the ceremony and the world after it. -/
def perform (c : Ceremony σ) (w : σ) : Action σ → Except Error Answer × Ceremony σ × σ
  | .use u =>
    let (answer, w') := outcome (u.step c) w
    (answer, c, w')
  | .signAndAppend now signer =>
    match c.signAndAppend now signer with
    | .ok (sig, d) => (.ok (.signature sig), d, w)
    | .error e => (.error e, c, w)
  | .addSignature sig => (.ok .done, c.addSignature sig, w)
  | .inspectors is => (.ok .done, c.withInspectors is, w)
  | .simulators ss => (.ok .done, c.withSimulators ss, w)
  | .decoders ds => (.ok .done, c.withDecoders ds, w)
  | .executors xs => (.ok .done, c.withExecutors xs, w)

/-- The course of a ceremony: actions with what they came to. Between two of them the world may
change as it likes. -/
inductive Course (c : Ceremony σ) : List (Action σ × Except Error Answer) → Ceremony σ → Prop
  | start : Course c [] c
  | next {events : List (Action σ × Except Error Answer)} {d : Ceremony σ} (action : Action σ)
      (w : σ) : Course c events d →
      Course c (events ++ [(action, (d.perform w action).1)]) (d.perform w action).2.1

/-- The signature that an action adds if it comes to the given outcome. -/
def Action.added : Action σ → Except Error Answer → Option Signature
  | .signAndAppend _ _, .ok (.signature sig) => some sig
  | .addSignature sig, _ => some sig
  | _, _ => none

/-- The signatures that the actions of a course add. -/
def added (events : List (Action σ × Except Error Answer)) : List Signature :=
  events.filterMap fun e => e.1.added e.2

/-! ## One action -/

/-- A signature is made and added, or it is not made and nothing happens. -/
theorem perform_signAndAppend (c : Ceremony σ) (w : σ) (now : Int) (signer : Signer) :
    (∃ sig, c.sign now signer = .ok sig ∧ c.perform w (.signAndAppend now signer) =
      (.ok (.signature sig), c.addSignature sig, w)) ∨
    (∃ e, c.sign now signer = .error e ∧ c.perform w (.signAndAppend now signer) =
      (.error e, c, w)) := by
  rw [perform, signAndAppend]
  cases c.sign now signer with
  | error e => exact .inr ⟨e, rfl, rfl⟩
  | ok sig => exact .inl ⟨sig, rfl, rfl⟩

/-- An action adds its signature and does nothing else to what is signed. -/
theorem perform_gains (c : Ceremony σ) (w : σ) (action : Action σ) :
    Gains c (action.added (c.perform w action).1).toList (c.perform w action).2.1 := by
  cases action with
  | use u => exact .refl c
  | signAndAppend now signer =>
    rcases c.perform_signAndAppend w now signer with ⟨sig, _, h⟩ | ⟨e, _, h⟩
    · rw [h]
      exact .addSignature c sig
    · rw [h]
      exact .refl c
  | addSignature sig => exact .addSignature c sig
  | _ => exact .none rfl rfl rfl rfl

/-- An action that fails leaves the ceremony as it was. -/
theorem perform_of_error {c : Ceremony σ} {w : σ} {action : Action σ} {e : Error}
    (h : (c.perform w action).1 = .error e) : (c.perform w action).2.1 = c := by
  cases action with
  | use u => rfl
  | signAndAppend now signer =>
    rcases c.perform_signAndAppend w now signer with ⟨sig, _, hsigned⟩ | ⟨e', _, hfailed⟩
    · rw [hsigned] at h
      cases h
    · rw [hfailed]
  | _ => cases h

/-! ## A course -/

theorem Course.gains {c d : Ceremony σ} {events : List (Action σ × Except Error Answer)}
    (h : c.Course events d) : Gains c (added events) d := by
  induction h with
  | start => exact .refl c
  | next action w _ ih =>
    rename_i events d _
    have hadded : added (events ++ [(action, (d.perform w action).1)]) =
        added events ++ (action.added (d.perform w action).1).toList := by
      unfold added
      rw [List.filterMap_append, List.filterMap_cons, List.filterMap_nil]
      cases action.added (d.perform w action).1 <;> rfl
    rw [hadded]
    exact ih.trans (d.perform_gains w action)

/-- The course goes on with a signature that is made. -/
theorem Course.signed {c d : Ceremony σ} {events : List (Action σ × Except Error Answer)}
    (h : c.Course events d) (w : σ) {now : Int} {signer : Signer} {sig : Signature}
    (hsign : d.sign now signer = .ok sig) :
    c.Course (events ++ [(.signAndAppend now signer, .ok (.signature sig))])
      (d.addSignature sig) := by
  have hperform : d.perform w (.signAndAppend now signer) =
      (.ok (.signature sig), d.addSignature sig, w) := by
    rw [perform, signAndAppend, hsign]
    rfl
  have hnext := h.next (.signAndAppend now signer) w
  rw [hperform] at hnext
  exact hnext

/-- On its course a ceremony keeps its tree, its root, its nonces, the digest to sign, and all of the
proposal but the signatures. Those that were made and handed in come behind the others in their
order. The nonces are those of the operations at the same indices, and the proposal with the same
encoders leads to the same tree and nonces. An action that fails changes nothing. -/
theorem course_only_adds_signatures {p : Proposal} {encoders : Encoders} {c d : Ceremony σ}
    {events : List (Action σ × Except Error Answer)} (started : start p encoders = .ok c)
    (course : c.Course events d) :
    d.tree = c.tree ∧ d.root = c.root ∧ d.nonces = c.nonces ∧
      d.signingDigest = c.signingDigest ∧
      d.proposal = { p with signatures := p.signatures ++ added events } ∧
      (d.nonces.length = d.proposal.operations.length ∧ ∀ i op, d.proposal.operations[i]? = some op →
        ∃ m nonce, d.proposal.chains.get? op.chain = some m ∧ d.nonces[i]? = some nonce ∧
          nonce.toNat = m.startingCount.toNat +
            Proposal.countOn op.chain (d.proposal.operations.take i)) ∧
      (∃ e : Ceremony σ, start d.proposal encoders = .ok e ∧ e.tree = d.tree ∧
        e.nonces = d.nonces) ∧
      ∀ (action : Action σ) (w : σ) (e : Error), (d.perform w action).1 = .error e →
        (d.perform w action).2.1 = d := by
  have hgains := course.gains
  have hcommitted := hgains.keeps.committed (committed_of_start started)
  obtain ⟨k, _, rfl⟩ := start_eq_ok.1 started
  -- the encoders of the ceremony are still those that it started with
  have hencoders : d.encoders = encoders := hgains.encoders
  have hagain : Commitment.ofProposal encoders d.proposal = .ok ⟨d.tree, d.nonces⟩ :=
    hencoders ▸ hcommitted
  obtain ⟨_, nonces, _, _, hnonces, _, heq⟩ := Commitment.ofProposal_eq_ok.1 hagain
  obtain rfl : d.nonces = nonces := congrArg Commitment.nonces heq
  exact ⟨hgains.tree, hgains.root, hgains.nonces, hgains.signingDigest, hgains.proposal,
    Proposal.nonces_spec hnonces, ⟨_, start_eq_ok.2 ⟨_, hagain, rfl⟩, rfl, rfl⟩,
    fun action w e h => perform_of_error h⟩

/-- One signature is too late and one is handed in, a root is set without an executor, and one
signature is made in time. -/
theorem late_signature_is_not_added : ∃ (c d : Ceremony Unit)
    (events : List (Action Unit × Except Error Answer)),
    start Sample.proposal Sample.encoders = .ok c ∧ c.Course events d ∧
      events.map (fun e => e.2.isOk) = [false, true, false, true] ∧ d.root = c.root ∧
      d.nonces = c.nonces ∧ d.proposal.signatures.map (·.v) = [27, 1] := by
  obtain ⟨c, hc⟩ : ∃ c : Ceremony Unit, start Sample.proposal Sample.encoders = .ok c := ⟨_, rfl⟩
  have course := Course.next (.signAndAppend 0 (Sample.stamp (List.replicate 65 1))) ()
    (.next (.use (.setRoot Sample.one)) ()
      (.next (.addSignature Sample.signature) ()
        (.next (.signAndAppend 4000000000 (Sample.stamp (List.replicate 65 1))) ()
          (.start (c := c)))))
  obtain ⟨_, hroot, hnonces, _, hproposal, _⟩ := course_only_adds_signatures hc course
  refine ⟨c, _, _, hc, course, ?_, hroot, hnonces, ?_⟩
  · obtain ⟨k, _, rfl⟩ := start_eq_ok.1 hc
    rfl
  · obtain ⟨k, _, rfl⟩ := start_eq_ok.1 hc
    rw [hproposal]
    rfl

end Quorate.Ceremony
