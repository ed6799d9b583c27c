/-
Keyholders: holders of private keys sign a ceremony one after the other. What each signs is traced
to the address of the key, and since the same is to be signed early and late, so are all signatures
together, in their order.
-/
import Quorate.Proofs.Ceremony.Arrival
import Quorate.Proofs.Signature.Keys

namespace Quorate.Ceremony

variable {σ : Type} {c d : Ceremony σ} {calls : List (Int × PrivateKey)}

/-- Holders of keys sign one after the other, each at its time. -/
def keysInTurn (c : Ceremony σ) (calls : List (Int × PrivateKey)) : Except Error (Ceremony σ) :=
  c.signInTurn (calls.map fun call => (call.1, call.2.signer))

/-- The curve makes a signature with the key of each call. -/
def CurveSigns (c : Ceremony σ) (calls : List (Int × PrivateKey)) : Prop :=
  ∀ call ∈ calls, ∃ made, Curve.sign? call.2.secret c.signingDigest.toNat = some made

theorem exists_keysInTurn (hvalid : ∀ call ∈ calls, c.proposal.validateAt call.1 = .ok ()) :
    (∃ d, c.keysInTurn calls = .ok d) ↔ c.CurveSigns calls := by
  unfold keysInTurn CurveSigns
  rw [exists_signInTurn, List.forall_mem_map]
  refine forall₂_congr fun call hcall => ?_
  simp only [sign_eq_ok, hvalid call hcall, true_and, PrivateKey.signature_eq_ok]
  constructor
  · rintro ⟨_, made, hmade, _⟩
    exact ⟨made, hmade⟩
  · rintro ⟨made, hmade⟩
    exact ⟨_, made, hmade, rfl⟩

/-- What was added by each call. -/
theorem keysInTurn_eq_ok (h : c.keysInTurn calls = .ok d) : ∃ sigs,
    List.Forall₂ (fun call sig => call.2.signer.signature c.signingDigest = .ok sig) calls sigs ∧
      c.withSignatures (c.proposal.signatures ++ sigs) = d := by
  obtain ⟨sigs, hsigs, rfl⟩ := signInTurn_eq_ok.1 h
  rw [List.forall₂_map_left_iff] at hsigs
  exact ⟨sigs, hsigs.imp fun _ _ hsign => (sign_eq_ok.1 hsign).2, rfl⟩

/-- Holders of keys sign a ceremony that nobody has signed, while its proposal is valid and the curve
makes a signature for each of them. The run comes to its end, those who signed are the addresses of
the keys, in the order of the calls, and each byte `v` is the recovery id raised by 27. -/
theorem keyholders_are_found_in_order (unsigned : c.proposal.signatures = [])
    (hvalid : ∀ call ∈ calls, c.proposal.validateAt call.1 = .ok ()) (hsigns : c.CurveSigns calls) :
    ∃ d, c.keysInTurn calls = .ok d ∧
      d.signers = .ok (calls.map fun call => call.2.address) ∧
      List.Forall₂ (fun call sig => ∃ made,
        Curve.sign? call.2.secret c.signingDigest.toNat = some made ∧
          sig.v.toNat = made.id.val + 27) calls d.proposal.signatures := by
  obtain ⟨d, hd⟩ := (exists_keysInTurn hvalid).2 hsigns
  obtain ⟨sigs, hsigs, rfl⟩ := keysInTurn_eq_ok hd
  refine ⟨_, hd, ?_⟩
  rw [unsigned, List.nil_append]
  constructor
  · have haddresses : calls.map (fun call => call.2.address) =
        (calls.map Prod.snd).map PrivateKey.address := by
      rw [List.map_map]
      rfl
    rw [haddresses]
    exact signers_of_signed _ (List.forall₂_map_left_iff.2 hsigs)
  · refine hsigs.imp fun call sig hsig => ?_
    obtain ⟨made, hmade, rfl⟩ := PrivateKey.signature_eq_ok.1 hsig
    exact ⟨made, hmade, Signature.toNat_raisedId made.id⟩

/-! ## The sample -/

/-- Calls of two keyholders, of whom the first comes back. -/
def sampleCalls : List (Int × PrivateKey) :=
  [(0, Sample.firstKey), (5, Sample.secondKey), (9, Sample.firstKey)]

theorem validateAt_of_sample (hc : start Sample.proposal Sample.encoders = .ok c) :
    ∀ call ∈ sampleCalls, c.proposal.validateAt call.1 = .ok () := by
  rw [proposal_of_start hc]
  unfold sampleCalls
  simp only [List.forall_mem_cons]
  exact ⟨rfl, rfl, rfl, nofun⟩

theorem curveSigns_of_sample (hc : start Sample.proposal Sample.encoders = .ok c) :
    c.CurveSigns sampleCalls := by
  unfold CurveSigns sampleCalls
  rw [signingDigest_of_sample hc]
  simp only [List.forall_mem_cons]
  exact ⟨⟨_, Sample.sign?_firstKey⟩, ⟨_, Sample.sign?_secondKey⟩, ⟨_, Sample.sign?_firstKey⟩, nofun⟩

/-- Two keys sign, the first of them twice, and all three signatures are traced to them. -/
theorem two_keyholders_are_found : ∃ c d : Ceremony Unit,
    start Sample.proposal Sample.encoders = .ok c ∧ c.proposal.signatures = [] ∧
    c.keysInTurn [(0, Sample.firstKey), (5, Sample.secondKey), (9, Sample.firstKey)] = .ok d ∧
    d.signers = .ok [Sample.firstKey.address, Sample.secondKey.address, Sample.firstKey.address] ∧
    d.proposal.signatures.map (fun sig => sig.v.toNat) = [28, 28, 28] := by
  obtain ⟨c, hc⟩ : ∃ c : Ceremony Unit, start Sample.proposal Sample.encoders = .ok c := ⟨_, rfl⟩
  have unsigned : c.proposal.signatures = [] := congrArg Proposal.signatures (proposal_of_start hc)
  obtain ⟨d, hd, hsigners, hids⟩ := keyholders_are_found_in_order unsigned
    (validateAt_of_sample hc) (curveSigns_of_sample hc)
  refine ⟨c, d, hc, unsigned, hd, hsigners, ?_⟩
  rw [signingDigest_of_sample hc] at hids
  generalize d.proposal.signatures = sigs at hids ⊢
  rcases hids with _ | ⟨⟨_, h₁, hv₁⟩, _ | ⟨⟨_, h₂, hv₂⟩, _ | ⟨⟨_, h₃, hv₃⟩, _ | _⟩⟩⟩
  obtain rfl := Option.some.inj (Sample.sign?_firstKey.symm.trans h₁)
  obtain rfl := Option.some.inj (Sample.sign?_secondKey.symm.trans h₂)
  obtain rfl := Option.some.inj (Sample.sign?_firstKey.symm.trans h₃)
  simp [hv₁, hv₂, hv₃]

end Quorate.Ceremony
