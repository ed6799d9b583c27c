/-
Unsigned ceremonies: what a check comes to while no one has signed. Policies are taken as the
contracts answer them and are not validated on the way, so the signatures of an unsigned ceremony
suffice for a chain exactly when the policy of the chain is unguarded.
-/
import Quorate.Proofs.Ceremony.Checks
import Quorate.Proofs.Ceremony.Committed
import Quorate.Proofs.Policy.Unguarded
import Quorate.Proofs.Sample

namespace Quorate.Ceremony

variable {σ : Type}

/-- The contract of a chain, asked on the world `w`, answers with an unguarded policy. -/
def Unguarded (c : Ceremony σ) (chain : Selector) (w w' : σ) : Prop :=
  ∃ policy, c.Answers chain w policy w' ∧ policy.unguarded = true

theorem signers_unsigned {c : Ceremony σ} (unsigned : c.proposal.signatures = []) :
    c.signers = .ok [] := by
  unfold signers
  rw [unsigned]
  rfl

theorem checkQuorum_unsigned {c : Ceremony σ} (unsigned : c.proposal.signatures = [])
    (chain : Selector) (w w' : σ) :
    outcome (c.checkQuorum chain) w = (.ok true, w') ↔ c.Unguarded chain w w' := by
  rw [checkQuorum_eq_ok, signers_unsigned unsigned]
  unfold Unguarded
  constructor
  · rintro ⟨policy, signers, hanswers, hsigners, hreached⟩
    cases hsigners
    rw [Policy.authorizes_nil, Except.ok.injEq] at hreached
    exact ⟨policy, hanswers, hreached⟩
  · rintro ⟨policy, hanswers, hunguarded⟩
    exact ⟨policy, [], hanswers, rfl, by rw [Policy.authorizes_nil, hunguarded]⟩

/-- While no one has signed, the signatures suffice for a chain exactly when its policy is
unguarded, and for the proposal exactly when the policies of all its chains are. They never do where
the policies are valid, if the proposal has a chain. -/
theorem unsigned_suffices_only_where_unguarded {c : Ceremony σ}
    (unsigned : c.proposal.signatures = []) :
    (∀ chain w w', outcome (c.checkQuorum chain) w = (.ok true, w') ↔ c.Unguarded chain w w') ∧
      (∀ w w', outcome c.validateSignatures w = (.ok true, w') ↔
        Along c.Unguarded c.proposal.selectors w w') ∧
      ((∀ chain w policy w', c.Answers chain w policy w' → policy.validate = .ok ()) →
        c.proposal.selectors ≠ [] → ∀ w w',
          (∀ chain, outcome (c.checkQuorum chain) w ≠ (.ok true, w')) ∧
            outcome c.validateSignatures w ≠ (.ok true, w')) := by
  have hcheck := checkQuorum_unsigned unsigned
  have hvalidate : ∀ w w', outcome c.validateSignatures w = (.ok true, w') ↔
      Along c.Unguarded c.proposal.selectors w w' := by
    intro w w'
    rw [validateSignatures_eq_ok, along_congr hcheck, and_iff_right rfl]
  refine ⟨hcheck, hvalidate, fun hvalid hchains w w' => ?_⟩
  have hguarded : ∀ chain w w', ¬ c.Unguarded chain w w' := by
    rintro chain w w' ⟨policy, hanswers, hunguarded⟩
    rw [Policy.not_unguarded_of_validate (hvalid chain w policy w' hanswers)] at hunguarded
    cases hunguarded
  refine ⟨fun chain hreached => hguarded chain w w' ((hcheck chain w w').1 hreached), fun h => ?_⟩
  have halong := (hvalidate w w').1 h
  -- the first chain already stands in the way
  cases hsel : c.proposal.selectors with
  | nil => exact hchains hsel
  | cons chain rest =>
    rw [hsel] at halong
    obtain ⟨w₁, hfirst, _⟩ := halong
    exact hguarded chain w w₁ hfirst

/-- A group of quorum zero approves for a policy that has a member who did not sign. The other chain
holds a valid policy, and there the signatures do not suffice. -/
theorem unsigned_suffices_for_zero_group : ∃ c d : Ceremony Unit,
    start Sample.proposal Sample.encoders = .ok c ∧
      d = c.withInspectors (Table.ofList [
        (Sample.one, Sample.holding (.node 1 [.zero] [.node 0 [.zero] []])),
        (Sample.two, Sample.holding (.node 1 [.zero] []))]) ∧
      d.proposal.signatures = [] ∧ outcome (d.checkQuorum Sample.one) () = (.ok true, ()) ∧
      outcome d.validateSignatures () ≠ (.ok true, ()) := by
  obtain ⟨c, hc⟩ : ∃ c : Ceremony Unit, start Sample.proposal Sample.encoders = .ok c := ⟨_, rfl⟩
  obtain ⟨k, _, rfl⟩ := start_eq_ok.1 hc
  refine ⟨_, _, hc, rfl, rfl, ?_, fun h => ?_⟩
  · refine ((unsigned_suffices_only_where_unguarded rfl).1 Sample.one () ()).2 ?_
    exact ⟨_, ⟨_, _, rfl, rfl, rfl⟩, by decide⟩
  · obtain ⟨_, _, _, ⟨_, ⟨_, _, hx, _, hpolicy⟩, hunguarded⟩, _⟩ :=
      ((unsigned_suffices_only_where_unguarded rfl).2.1 () ()).1 h
    cases hx
    cases hpolicy
    cases hunguarded

/-- Where every chain holds a policy of quorum zero, the signatures suffice though there are none. -/
theorem no_signature_suffices_for_zero : ∃ c d : Ceremony Unit,
    Sample.proposal.validateAt 0 = .ok () ∧ start Sample.proposal Sample.encoders = .ok c ∧
      d = c.withInspectors (Sample.proposal.chains.map fun _ _ => Sample.holding (.node 0 [] [])) ∧
      d.proposal.selectors ≠ [] ∧ d.proposal.signatures = [] ∧
      outcome (d.checkQuorum Sample.one) () = (.ok true, ()) ∧
      outcome d.validateSignatures () = (.ok true, ()) := by
  obtain ⟨c, hc⟩ : ∃ c : Ceremony Unit, start Sample.proposal Sample.encoders = .ok c := ⟨_, rfl⟩
  obtain ⟨k, _, rfl⟩ := start_eq_ok.1 hc
  have hchains : Sample.proposal.selectors ≠ [] := by decide
  exact ⟨_, _, Sample.valid, hc, rfl, hchains, rfl, rfl, rfl⟩

end Quorate.Ceremony
