/-
Signatures by signer: with a root a chain is handed what was collected, in the order of those who
signed. Nothing is lost or doubled, and what one signer signed stays in the order of collection; no
other list is such. Otherwise the first collected signature that leads to nobody is the error.
-/
import Quorate.Proofs.Ceremony.Keyholders
import Quorate.Proofs.Ceremony.Verdict

namespace Quorate.Ceremony

variable {σ : Type} {c : Ceremony σ}

/-- Those of some signatures that lead to a signer. -/
def madeBy (c : Ceremony σ) (a : Address) (sigs : List Signature) : List Signature :=
  sigs.filter fun sig => (sig.recover c.signingDigest).toOption = some a

/-- The collected signatures in the order of their signers. -/
structure BySigner (c : Ceremony σ) (sorted : List Signature) : Prop where
  perm : sorted.Perm c.proposal.signatures
  ascending : ∃ signers,
    List.Forall₂ (fun sig a => sig.recover c.signingDigest = .ok a) sorted signers ∧
      signers.Pairwise fun a b => (compare a.bytes b.bytes).isLE
  steady : ∀ a, c.madeBy a sorted = c.madeBy a c.proposal.signatures

/-! ## Signatures that all lead to someone -/

section Recovered

variable {who : Signature → Address}

theorem madeBy_eq_filter {sigs : List Signature}
    (hwho : ∀ sig ∈ sigs, sig.recover c.signingDigest = .ok (who sig)) (a : Address) :
    c.madeBy a sigs = sigs.filter (who · = a) := by
  refine List.filter_congr fun sig hsig => ?_
  rw [hwho sig hsig]
  simp [Except.toOption]

variable (hwho : ∀ sig ∈ c.proposal.signatures, sig.recover c.signingDigest = .ok (who sig))
include hwho

/-- The signatures are sorted by who made them. -/
theorem sortedSignatures_eq_mergeSort : c.sortedSignatures =
    .ok (c.proposal.signatures.mergeSort fun x y => (compare (who x) (who y)).isLE) := by
  have hkeyed : c.proposal.signatures.mapM (fun sig => (fun a => (a, sig)) <$> c.signerOf sig) =
      .ok (c.proposal.signatures.map fun sig => (who sig, sig)) := by
    refine mapM_eq_ok.2 (List.forall₂_map_right_iff.2 (List.forall₂_same.2 fun sig hsig => ?_))
    rw [signerOf_eq_ok.2 (hwho sig hsig), map_ok]
  have hsorted := List.map_mergeSort (f := fun sig => (who sig, sig))
    (r := fun x y => (compare (who x) (who y)).isLE)
    (s := fun x y : Address × Signature => (compare x.1 y.1).isLE)
    (l := c.proposal.signatures) fun _ _ _ _ => rfl
  unfold sortedSignatures
  rw [hkeyed, ok_bind, ← hsorted, List.map_map]
  exact congrArg _ (List.map_id _)

theorem bySigner_mergeSort :
    c.BySigner (c.proposal.signatures.mergeSort fun x y => (compare (who x) (who y)).isLE) := by
  have hperm := List.mergeSort_perm c.proposal.signatures
    fun x y => (compare (who x) (who y)).isLE
  have hwho' : ∀ sig ∈ c.proposal.signatures.mergeSort fun x y => (compare (who x) (who y)).isLE,
      sig.recover c.signingDigest = .ok (who sig) :=
    fun sig hsig => hwho sig (hperm.mem_iff.1 hsig)
  refine ⟨hperm, ⟨_, List.forall₂_map_right_iff.2 (List.forall₂_same.2 hwho'), ?_⟩, fun a => ?_⟩
  · exact List.pairwise_map.2 (pairwise_mergeSort_key who _)
  · rw [madeBy_eq_filter hwho', madeBy_eq_filter hwho, filter_mergeSort_key]

end Recovered

/-! ## The one order by signer -/

namespace BySigner

variable {sorted sorted' : List Signature}

theorem exists_signer (h : c.BySigner sorted) {sig : Signature}
    (hsig : sig ∈ c.proposal.signatures) : ∃ a, sig.recover c.signingDigest = .ok a := by
  obtain ⟨signers, hsigners, _⟩ := h.ascending
  obtain ⟨a, _, ha⟩ := mem_of_mapM_eq_ok (mapM_eq_ok.2 hsigners) (h.perm.mem_iff.2 hsig)
  exact ⟨a, ha⟩

theorem unique (h : c.BySigner sorted) (h' : c.BySigner sorted') : sorted = sorted' := by
  have hrecovers : ∀ sig ∈ c.proposal.signatures, ∃ a, sig.recover c.signingDigest = .ok a :=
    fun _ hsig => h.exists_signer hsig
  choose! who hwho using hrecovers
  have hlist : ∀ {l}, c.BySigner l → (∀ sig ∈ l, sig.recover c.signingDigest = .ok (who sig)) ∧
      l.Pairwise fun x y => (compare (who x) (who y)).isLE := by
    intro l hl
    have hl' : ∀ sig ∈ l, sig.recover c.signingDigest = .ok (who sig) :=
      fun sig hsig => hwho sig (hl.perm.mem_iff.1 hsig)
    obtain ⟨signers, hsigners, hpairs⟩ := hl.ascending
    have hmap : signers = l.map who := by
      have hrun := mapM_eq_ok.2 (List.forall₂_map_right_iff.2 (List.forall₂_same.2 hl'))
      exact Except.ok.inj ((mapM_eq_ok.2 hsigners).symm.trans hrun)
    rw [hmap] at hpairs
    exact ⟨hl', List.pairwise_map.1 hpairs⟩
  refine eq_of_filter_eq_of_pairwise_key who (hlist h).2 (hlist h').2 fun a => ?_
  rw [← madeBy_eq_filter (hlist h).1, ← madeBy_eq_filter (hlist h').1, h.steady, h'.steady]

end BySigner

theorem exists_sortedSignatures : (∃ sorted, c.sortedSignatures = .ok sorted) ↔
    ∀ sig ∈ c.proposal.signatures, ∃ a, sig.recover c.signingDigest = .ok a := by
  have hsigners : (∃ sorted, c.sortedSignatures = .ok sorted) ↔
      ∃ signers, c.signers = .ok signers := by
    rw [sortedSignatures_eq_map]
    cases c.signers <;> simp [Functor.map, Except.map]
  rw [hsigners, Ceremony.signers, exists_mapM_iff]
  simp only [signerOf_eq_ok]

theorem bySigner_of_sortedSignatures {sorted : List Signature}
    (h : c.sortedSignatures = .ok sorted) : c.BySigner sorted := by
  have hrecovers := exists_sortedSignatures.1 ⟨sorted, h⟩
  choose! who hwho using hrecovers
  obtain rfl := Except.ok.inj (h.symm.trans (sortedSignatures_eq_mergeSort hwho))
  exact bySigner_mergeSort hwho

theorem sortedSignatures_eq_ok {sorted : List Signature} :
    c.sortedSignatures = .ok sorted ↔ c.BySigner sorted := by
  refine ⟨bySigner_of_sortedSignatures, fun h => ?_⟩
  obtain ⟨sorted', hsorted'⟩ := exists_sortedSignatures.2 fun _ hsig => h.exists_signer hsig
  rw [hsorted', h.unique (bySigner_of_sortedSignatures hsorted')]

/-- The first signature that leads to nobody is the error. -/
theorem sortedSignatures_eq_error_iff {e : Error} : c.sortedSignatures = .error e ↔
    ∃ before sig after e', c.proposal.signatures = before ++ sig :: after ∧
      (∀ earlier ∈ before, ∃ a, earlier.recover c.signingDigest = .ok a) ∧
      sig.recover c.signingDigest = .error e' ∧ e = .signature e' := by
  rw [sortedSignatures_eq_map, map_eq_error, signers_eq_error]
  simp only [← mapM_eq_ok, ← exists_mapM_iff]
  constructor
  · rintro ⟨before, sig, after, earlier, e', hsplit, hearlier, he', rfl⟩
    exact ⟨before, sig, after, e', hsplit, ⟨earlier, hearlier⟩, he', rfl⟩
  · rintro ⟨before, sig, after, e', hsplit, ⟨earlier, hearlier⟩, he', rfl⟩
    exact ⟨before, sig, after, earlier, e', hsplit, hearlier, he', rfl⟩

/-- The collected signatures are sorted exactly if each leads to a signer, and what comes out is the
one list of them that is in the order of the signers' bytes and keeps together, in the order of
collection, what each signer signed. Otherwise the first signature that leads to nobody is the
error. -/
theorem signatures_are_sorted_or_first_unrecoverable_is_named (c : Ceremony σ) :
    ((∃ sorted, c.sortedSignatures = .ok sorted) ↔
      ∀ sig ∈ c.proposal.signatures, ∃ a, sig.recover c.signingDigest = .ok a) ∧
    (∀ sorted, c.sortedSignatures = .ok sorted ↔ c.BySigner sorted) ∧
    ∀ e, c.sortedSignatures = .error e ↔
      ∃ before sig after e', c.proposal.signatures = before ++ sig :: after ∧
        (∀ earlier ∈ before, ∃ a, earlier.recover c.signingDigest = .ok a) ∧
        sig.recover c.signingDigest = .error e' ∧ e = .signature e' :=
  ⟨exists_sortedSignatures, fun _ => sortedSignatures_eq_ok, fun _ => sortedSignatures_eq_error_iff⟩

/-- Two keys sign, the first of them twice. The address of the second is the lesser one, so what it
signed is sorted to the front. Of two bad signatures the one that was collected first is the error. -/
theorem keyholders_are_sorted : ∃ c d : Ceremony Unit, ∃ first second : Signature,
    c.keysInTurn [(0, Sample.firstKey), (5, Sample.secondKey), (9, Sample.firstKey)] = .ok d ∧
    d.proposal.signatures = [first, second, first] ∧ first ≠ second ∧
    d.sortedSignatures = .ok [second, first, first] ∧
    ((c.addSignature ⟨.zero, .zero, 9⟩).addSignature Sample.signature).sortedSignatures =
      .error (.signature (.recoveryId 9)) := by
  obtain ⟨c, hc⟩ : ∃ c : Ceremony Unit, start Sample.proposal Sample.encoders = .ok c := ⟨_, rfl⟩
  have hnone : c.proposal.signatures = [] := congrArg Proposal.signatures (proposal_of_start hc)
  obtain ⟨d, hd⟩ := (exists_keysInTurn (validateAt_of_sample hc)).2 (curveSigns_of_sample hc)
  obtain ⟨sigs, hsigs, hsigned⟩ := keysInTurn_eq_ok hd
  rcases hsigs with _ | ⟨h₁, _ | ⟨h₂, _ | ⟨h₃, _ | _⟩⟩⟩
  rename_i first second third
  obtain rfl : first = third := Except.ok.inj (h₁.symm.trans h₃)
  rw [hnone, List.nil_append] at hsigned
  have hfirst : first.recover d.signingDigest = .ok Sample.firstKey.address := by
    rw [← hsigned]
    exact PrivateKey.recover_signature h₁
  have hsecond : second.recover d.signingDigest = .ok Sample.secondKey.address := by
    rw [← hsigned]
    exact PrivateKey.recover_signature h₂
  have hcollected : d.proposal.signatures = [first, second, first] := by
    rw [← hsigned]
    rfl
  have hby : d.BySigner [second, first, first] := by
    refine ⟨?_, ⟨[Sample.secondKey.address, Sample.firstKey.address, Sample.firstKey.address],
      ?_, ?_⟩, fun a => ?_⟩
    · rw [hcollected]
      exact .swap _ _ _
    · simp [hfirst, hsecond]
    · have hless : compare Sample.secondKey.address.bytes Sample.firstKey.address.bytes = .lt :=
        Sample.compare_address
      simp [hless]
    · rw [hcollected]
      unfold madeBy
      simp only [List.filter_cons, List.filter_nil, hfirst, hsecond, Except.toOption]
      by_cases hone : Sample.firstKey.address = a
      · have htwo : Sample.secondKey.address ≠ a := fun htwo =>
          Sample.address_ne (hone.trans htwo.symm)
        simp [hone, htwo]
      · simp [hone]
  obtain ⟨_, hsorted, _⟩ := signatures_are_sorted_or_first_unrecoverable_is_named d
  obtain ⟨_, _, hbad⟩ := signatures_are_sorted_or_first_unrecoverable_is_named
    ((c.addSignature ⟨.zero, .zero, 9⟩).addSignature Sample.signature)
  refine ⟨c, d, first, second, hd, hcollected, ?_, (hsorted _).2 hby, (hbad _).2 ?_⟩
  · rintro rfl
    exact Sample.address_ne (Except.ok.inj (hfirst.symm.trans hsecond))
  · refine ⟨[], ⟨.zero, .zero, 9⟩, [Sample.signature], .recoveryId 9, ?_, by simp, rfl, rfl⟩
    exact congrArg (· ++ [_] ++ [Sample.signature]) hnone

end Quorate.Ceremony
