/-
Arrival: signers sign a ceremony one after the other, and it does not matter who comes first. What is
signed does not depend on who has signed, so everyone brings the same signature early and late;
policies judge who signed and not when; and signatures of different signers have one order by signer.
-/
import Quorate.Proofs.Ceremony.Checks
import Quorate.Proofs.Ceremony.Gains
import Quorate.Proofs.Policy.Monotone
import Quorate.Proofs.Signature.Keys
import Quorate.Proofs.Sorting

namespace Quorate

/-- A signer who answers with as many bytes as a signature has brings a signature. -/
theorem Signer.exists_signature {signer : Signer} {payload : Digest} {bs : List UInt8}
    (hsign : signer.sign payload = .ok bs) (hsize : bs.length = Signature.size) :
    ∃ sig, signer.signature payload = .ok sig := by
  unfold Signer.signature Signature.ofBytes
  rw [hsign, ok_bind, dif_pos hsize]
  exact ⟨_, rfl⟩

/-- Signers who all answer so bring a signature each. -/
theorem Signer.exists_made {signers : List Signer} {payload : Digest}
    (sound : ∀ signer ∈ signers, ∃ bs, signer.sign payload = .ok bs ∧
      bs.length = Signature.size) :
    ∃ made : Signer → Signature,
      ∀ signer ∈ signers, signer.signature payload = .ok (made signer) := by
  have hbrings : ∀ signer, ∃ sig, signer ∈ signers → signer.signature payload = .ok sig := by
    intro signer
    by_cases hmem : signer ∈ signers
    · obtain ⟨bs, hsign, hsize⟩ := sound signer hmem
      obtain ⟨sig, hsig⟩ := exists_signature hsign hsize
      exact ⟨sig, fun _ => hsig⟩
    · exact ⟨⟨.zero, .zero, 0⟩, fun h => absurd h hmem⟩
  choose made hmade using hbrings
  exact ⟨made, hmade⟩

namespace Ceremony

variable {σ : Type} {c : Ceremony σ}

/-! ## The same signatures in another order -/

/-- The ceremony with other signatures. -/
def withSignatures (c : Ceremony σ) (sigs : List Signature) : Ceremony σ :=
  { c with proposal := { c.proposal with signatures := sigs } }

theorem signers_withSignatures (sigs : List Signature) :
    (c.withSignatures sigs).signers = sigs.mapM c.signerOf := rfl

/-- A chain answers alike on two worlds: its contract holds one policy on both. -/
def Steady (c : Ceremony σ) (chain : Selector) (v u : σ) : Prop :=
  ∀ policy, (∃ v', c.Answers chain v policy v') ↔ ∃ u', c.Answers chain u policy u'

theorem Steady.symm {chain : Selector} {v u : σ} (h : c.Steady chain v u) : c.Steady chain u v :=
  fun policy => (h policy).symm

/-- A policy judges all orders of those who signed alike. -/
theorem checkQuorum_of_perm {sigs sigs' : List Signature} (hperm : sigs.Perm sigs')
    {chain : Selector} {v u : σ} (hsteady : c.Steady chain v u) {b : Bool}
    (h : (outcome ((c.withSignatures sigs).checkQuorum chain) v).1 = .ok b) :
    (outcome ((c.withSignatures sigs').checkQuorum chain) u).1 = .ok b := by
  obtain ⟨policy, addresses, hanswers, hsigners, hauthorizes⟩ := checkQuorum_fst_eq_ok.1 h
  obtain ⟨addresses', hsigners', haddresses⟩ := mapM_perm hperm hsigners
  obtain ⟨hknown, hconsensus⟩ := Policy.authorizes_eq_ok.1 hauthorizes
  -- neither the inspectors nor the metadata of the chain have changed with the signatures
  have hanswers' : ∃ u', (c.withSignatures sigs').Answers chain u policy u' :=
    (hsteady policy).1 hanswers
  refine checkQuorum_fst_eq_ok.2 ⟨policy, addresses', hanswers', hsigners', ?_⟩
  refine Policy.authorizes_eq_ok.2 ⟨fun a ha => hknown a (haddresses.mem_iff.2 ha), ?_⟩
  rw [← hconsensus]
  exact Policy.atConsensus_congr fun a => haddresses.mem_iff.symm

theorem sortedSignatures_eq_map (c : Ceremony σ) : c.sortedSignatures =
    (fun signers => ((signers.zip c.proposal.signatures).mergeSort
      fun x y => (compare x.1 y.1).isLE).map (·.2)) <$> c.signers := by
  unfold sortedSignatures signers
  rw [mapM_keyed]
  cases c.proposal.signatures.mapM c.signerOf <;> rfl

/-- Signatures of different signers are sorted to one list, however they are mixed. -/
theorem sortedSignatures_of_perm {sigs sigs' : List Signature} (hperm : sigs.Perm sigs')
    {addresses : List Address} (hsigners : (c.withSignatures sigs).signers = .ok addresses)
    (hdistinct : addresses.Nodup) :
    ∃ sorted, (c.withSignatures sigs).sortedSignatures = .ok sorted ∧
      (c.withSignatures sigs').sortedSignatures = .ok sorted := by
  rw [signers_withSignatures] at hsigners
  have hkeyed : sigs.mapM (fun sig => (fun a => (a, sig)) <$> c.signerOf sig) =
      .ok (addresses.zip sigs) := by
    rw [mapM_keyed, hsigners]
    rfl
  obtain ⟨keyed', hkeyed', hmixed⟩ := mapM_perm hperm hkeyed
  have hfst : (addresses.zip sigs).map Prod.fst = addresses :=
    List.map_fst_zip (length_of_mapM_eq_ok hsigners).ge
  have hkey : ∀ x ∈ addresses.zip sigs, ∀ y ∈ addresses.zip sigs, x.1 = y.1 → x = y :=
    fun x hx y hy hxy => List.inj_on_of_nodup_map (hfst.symm ▸ hdistinct) hx hy hxy
  have hsorted := mergeSort_key_eq_of_perm Prod.fst hkey hmixed
  refine ⟨_, bind_eq_ok.2 ⟨_, hkeyed, rfl⟩, bind_eq_ok.2 ⟨_, hkeyed', ?_⟩⟩
  rw [← hsorted]

/-! ## One after the other -/

/-- Signers sign one after the other, each at its time. -/
def signInTurn (c : Ceremony σ) : List (Int × Signer) → Except Error (Ceremony σ)
  | [] => .ok c
  | (now, signer) :: calls => do
    let (_, d) ← c.signAndAppend now signer
    d.signInTurn calls

/-- Each of the signers signs once, while the proposal is valid. -/
structure Serialises (c : Ceremony σ) (signers : List Signer) (calls : List (Int × Signer)) :
    Prop where
  once : (calls.map Prod.snd).Perm signers
  valid : ∀ call ∈ calls, c.proposal.validateAt call.1 = .ok ()

/-- Everyone signs as if nobody had signed before, and the signatures are added behind the ones
before them. -/
theorem signInTurn_eq_map : ∀ (c : Ceremony σ) (calls : List (Int × Signer)), c.signInTurn calls =
    (fun sigs => c.withSignatures (c.proposal.signatures ++ sigs)) <$>
      calls.mapM fun call => c.sign call.1 call.2
  | c, [] => by
    show Except.ok c = .ok (c.withSignatures (c.proposal.signatures ++ []))
    rw [List.append_nil]
    rfl
  | c, (now, signer) :: calls => by
    unfold signInTurn signAndAppend
    rw [List.mapM_cons]
    cases c.sign now signer with
    | error e => rfl
    | ok sig =>
      have hgains := Gains.addSignature c sig
      have hrest := signInTurn_eq_map (c.addSignature sig) calls
      rw [hgains.sign, hgains.signatures] at hrest
      simp only [ok_bind, hrest]
      cases calls.mapM fun call => c.sign call.1 call.2 with
      | error e => rfl
      | ok sigs =>
        show Except.ok (c.withSignatures _) = .ok (c.withSignatures _)
        rw [List.append_assoc]
        rfl

theorem signInTurn_eq_ok {calls : List (Int × Signer)} {d : Ceremony σ} :
    c.signInTurn calls = .ok d ↔ ∃ sigs,
      List.Forall₂ (fun call sig => c.sign call.1 call.2 = .ok sig) calls sigs ∧
        c.withSignatures (c.proposal.signatures ++ sigs) = d := by
  rw [signInTurn_eq_map]
  simp only [← mapM_eq_ok]
  cases calls.mapM fun call => c.sign call.1 call.2 <;> simp [Functor.map, Except.map]

theorem exists_signInTurn {calls : List (Int × Signer)} :
    (∃ d, c.signInTurn calls = .ok d) ↔ ∀ call ∈ calls, ∃ sig, c.sign call.1 call.2 = .ok sig := by
  have hsign := exists_mapM_eq_ok (f := fun call : Int × Signer => c.sign call.1 call.2)
    (P := fun _ => True) (l := calls)
  simp only [implies_true, and_true] at hsign
  rw [← hsign, signInTurn_eq_map]
  cases calls.mapM fun call => c.sign call.1 call.2 <;> simp [Functor.map, Except.map]

namespace Serialises

variable {signers : List Signer} {calls : List (Int × Signer)} (h : c.Serialises signers calls)
include h

theorem signInTurn_eq {made : Signer → Signature}
    (hmade : ∀ signer ∈ signers, signer.signature c.signingDigest = .ok (made signer)) :
    c.signInTurn calls =
      .ok (c.withSignatures (c.proposal.signatures ++ calls.map fun call => made call.2)) := by
  refine signInTurn_eq_ok.2 ⟨_, List.forall₂_map_right_iff.2 ?_, rfl⟩
  refine List.forall₂_same.2 fun call hcall => sign_eq_ok.2 ⟨h.valid call hcall, ?_⟩
  exact hmade call.2 (h.once.mem_iff.1 (List.mem_map_of_mem hcall))

theorem made_perm (made : Signer → Signature) :
    (calls.map fun call => made call.2).Perm (signers.map made) := by
  have hmapped := h.once.map made
  rwa [List.map_map] at hmapped

end Serialises

/-- It does not matter in which order signers sign. Each signature comes behind the earlier ones, once;
where a policy has an answer, it has the same answer in any order; and signatures of different
signers are brought to a chain as the same list. -/
theorem signing_order_does_not_matter {signers : List Signer}
    (sound : ∀ signer ∈ signers, ∃ bs, signer.sign c.signingDigest = .ok bs ∧
      bs.length = Signature.size) :
    ∃ made : Signer → Signature,
      (∀ signer ∈ signers, signer.signature c.signingDigest = .ok (made signer)) ∧
      ∀ calls, c.Serialises signers calls → ∃ d, c.signInTurn calls = .ok d ∧
        d = c.withSignatures (c.proposal.signatures ++ calls.map fun call => made call.2) ∧
        (calls.map fun call => made call.2).Perm (signers.map made) ∧
        ∀ calls' d', c.Serialises signers calls' → c.signInTurn calls' = .ok d' →
          (∀ chain v u, c.Steady chain v u → ∀ b,
            (outcome (d.checkQuorum chain) v).1 = .ok b ↔
              (outcome (d'.checkQuorum chain) u).1 = .ok b) ∧
          ∀ addresses, d.signers = .ok addresses → addresses.Nodup →
            ∃ sorted, d.sortedSignatures = .ok sorted ∧ d'.sortedSignatures = .ok sorted := by
  obtain ⟨made, hmade⟩ := Signer.exists_made sound
  refine ⟨made, hmade, fun calls h => ⟨_, h.signInTurn_eq hmade, rfl, h.made_perm made, ?_⟩⟩
  intro calls' d' h' hd'
  obtain rfl := Except.ok.inj ((h'.signInTurn_eq hmade).symm.trans hd')
  -- the earlier signatures stay in front in both orders
  have hperm := ((h.made_perm made).trans (h'.made_perm made).symm).append_left
    c.proposal.signatures
  refine ⟨fun chain v u hsteady b => ⟨?_, ?_⟩, fun addresses hsigners hdistinct => ?_⟩
  · exact checkQuorum_of_perm hperm hsteady
  · exact checkQuorum_of_perm hperm.symm hsteady.symm
  · exact sortedSignatures_of_perm hperm hsigners hdistinct

/-- Two keyholders sign in either order. Each time the signatures are traced to them in the order in
which they came, a policy that asks for both is satisfied, and the chain is handed the same list. -/
theorem either_signer_may_come_first : ∃ c d d' : Ceremony Unit, ∃ sorted,
    (∀ signer ∈ [Sample.firstKey.signer, Sample.secondKey.signer], ∃ bs,
      signer.sign c.signingDigest = .ok bs ∧ bs.length = Signature.size) ∧
    c.signInTurn [(0, Sample.firstKey.signer), (5, Sample.secondKey.signer)] = .ok d ∧
    c.signInTurn [(3, Sample.secondKey.signer), (3, Sample.firstKey.signer)] = .ok d' ∧
    d.signers = .ok [Sample.firstKey.address, Sample.secondKey.address] ∧
    d'.signers = .ok [Sample.secondKey.address, Sample.firstKey.address] ∧
    (outcome (d.checkQuorum Sample.one) ()).1 = .ok true ∧
    (outcome (d'.checkQuorum Sample.one) ()).1 = .ok true ∧
    d.sortedSignatures = .ok sorted ∧ d'.sortedSignatures = .ok sorted := by
  let first := Sample.firstKey.signer
  let second := Sample.secondKey.signer
  let policy : Policy := .node 2 [Sample.firstKey.address, Sample.secondKey.address] []
  obtain ⟨c, hproposal, hdigest, hanswers⟩ := exists_sample_holding policy
  have sound : ∀ signer ∈ [first, second], ∃ bs, signer.sign c.signingDigest = .ok bs ∧
      bs.length = Signature.size := by
    rw [hdigest]
    intro signer hsigner
    rcases List.mem_pair.1 hsigner with rfl | rfl
    · exact ⟨_, PrivateKey.sign_of_sign? Sample.sign?_firstKey, Signature.length_toBytes _⟩
    · exact ⟨_, PrivateKey.sign_of_sign? Sample.sign?_secondKey, Signature.length_toBytes _⟩
  have hvalid : ∀ now : Int, Sample.proposal.validateAt now = .ok () →
      c.proposal.validateAt now = .ok () := fun now h => hproposal ▸ h
  have hcalls : c.Serialises [first, second] [(0, first), (5, second)] :=
    ⟨.refl _, by simp [hvalid 0 rfl, hvalid 5 rfl]⟩
  have hcalls' : c.Serialises [first, second] [(3, second), (3, first)] :=
    ⟨.swap _ _ _, by simp [hvalid 3 rfl]⟩
  obtain ⟨made, hmade, hrun⟩ := signing_order_does_not_matter sound
  obtain ⟨d, hd, rfl, _, halike⟩ := hrun _ hcalls
  obtain ⟨d', hd', rfl, _, _⟩ := hrun _ hcalls'
  obtain ⟨hquorum, hsorted⟩ := halike _ _ hcalls' hd'
  have hnone : c.proposal.signatures = [] := congrArg Proposal.signatures hproposal
  have hfirst := hmade first (by simp)
  have hsecond := hmade second (by simp)
  simp only [hnone, List.nil_append, List.map_cons, List.map_nil] at hd hd' hquorum hsorted
  have hsigners : (c.withSignatures [made first, made second]).signers =
      .ok [Sample.firstKey.address, Sample.secondKey.address] :=
    signers_of_signed [Sample.firstKey, Sample.secondKey] (.cons hfirst (.cons hsecond .nil))
  have hsigners' : (c.withSignatures [made second, made first]).signers =
      .ok [Sample.secondKey.address, Sample.firstKey.address] :=
    signers_of_signed [Sample.secondKey, Sample.firstKey] (.cons hsecond (.cons hfirst .nil))
  have hreached : (outcome ((c.withSignatures [made first, made second]).checkQuorum Sample.one)
      ()).1 = .ok true :=
    checkQuorum_fst_eq_ok.2 ⟨policy, _, ⟨(), hanswers⟩, hsigners, Policy.authorizes_both (by decide)⟩
  obtain ⟨sorted, hone, htwo⟩ := hsorted _ hsigners (by simp [Sample.address_ne])
  exact ⟨c, _, _, sorted, sound, hd, hd', hsigners, hsigners', hreached,
    (hquorum _ () () (fun _ => Iff.rfl) true).1 hreached, hone, htwo⟩

end Ceremony

end Quorate
