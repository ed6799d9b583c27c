/-
Proposals go through documents unchanged: a proposal that has been read and has no floats among its
free values is read again from either form that is written of it, and passes the same checks.
-/
import Quorate.Proofs.Chain.Kept
import Quorate.Proofs.Proposal.Validity
import Quorate.Proposal.Form

namespace Quorate.Proposal

open Json

/-- A proposal without floats in the extras of its chains and operations. -/
def Whole (p : Proposal) : Prop :=
  (∀ e ∈ p.chains.entries, ∀ v, e.2.extras = some v → v.Whole) ∧
    ∀ op ∈ p.operations, op.call.extras.Whole

instance : DecidablePred Whole := fun p =>
  inferInstanceAs (Decidable ((∀ e ∈ p.chains.entries, ∀ v ∈ e.2.extras, v.Whole) ∧
    ∀ op ∈ p.operations, op.call.extras.Whole))

/-! ## Reading what was written -/

theorem rereads_proposal {limit : Nat} {p : Proposal} (hsignatures : Rereads limit p.signatures)
    (hchains : byChain Form.read limit (Value.object
      (p.chains.entries.map fun e => (toString e.1, Form.write e.2))).toDoc = some p.chains)
    (hoperations : Rereads limit p.operations) : Rereads (limit + 1) p := by
  have hfields := Fields.ofDoc?_object names [("version", Form.write p.version),
    ("validUntil", Form.write p.validUntil), ("signatures", Form.write p.signatures),
    ("overridePreviousRoot", Form.write p.overridesRoot), ("chainMetadata", .object
      (p.chains.entries.map fun e => (toString e.1, Form.write e.2))),
    ("description", Form.write p.description), ("transactions", Form.write p.operations)]
    (List.Sublist.refl _) (by decide) limit
  refine (congrArg (Option.bind · _) hfields).trans ?_
  rw [Option.bind_some, Fields.required_written rfl (rereads_string limit p.version),
    Fields.required_written rfl (rereads_word limit p.validUntil),
    Fields.optional_written rfl hsignatures,
    Fields.optional_written rfl (rereads_bool limit p.overridesRoot),
    Fields.required_written rfl hchains,
    Fields.required_written rfl (rereads_string limit p.description),
    Fields.required_written rfl hoperations]
  rfl

theorem keeps_proposal : Keeps Proposal 4 Whole := by
  intro limit d p hlimit hread hwhole
  obtain ⟨fields, hfields, hread⟩ := Option.bind_eq_some_iff.1 hread
  obtain ⟨version, _, hread⟩ := Option.bind_eq_some_iff.1 hread
  obtain ⟨validUntil, _, hread⟩ := Option.bind_eq_some_iff.1 hread
  obtain ⟨signatures, _, hread⟩ := Option.bind_eq_some_iff.1 hread
  obtain ⟨overridesRoot, _, hread⟩ := Option.bind_eq_some_iff.1 hread
  obtain ⟨chains, hchains, hread⟩ := Option.bind_eq_some_iff.1 hread
  obtain ⟨description, _, hread⟩ := Option.bind_eq_some_iff.1 hread
  obtain ⟨operations, hoperations, hread⟩ := Option.bind_eq_some_iff.1 hread
  cases hread
  -- lists of tags are the deepest that may be written without having been read: three levels down
  have heq := Fields.limit_of_ofDoc? hfields
  obtain ⟨n, hn⟩ : ∃ n, fields.limit = n + 3 := ⟨fields.limit - 3, by omega⟩
  obtain ⟨dchains, hchains⟩ := Fields.required_eq_some hchains
  obtain ⟨doperations, hoperations⟩ := Fields.required_eq_some hoperations
  rw [hn] at hchains hoperations heq
  rw [heq]
  exact rereads_proposal (rereads_list fun sig _ => rereads_signature (n + 1) sig)
    (keeps_byChain keeps_metadata (by omega) hchains hwhole.1)
    (keeps_list keeps_operation _ _ operations (by omega) hoperations hwhole.2)

/-! ## The written form -/

theorem whole_write {p : Proposal} (h : p.Whole) : (Form.write p).Whole := by
  refine .object ?_
  simp only [List.forall_mem_cons]
  refine ⟨.string _, .int _, whole_list fun sig _ => whole_signature sig, .bool _, .object ?_,
    .string _, whole_list fun op hop => whole_operation (h.2 op hop), List.forall_mem_nil _⟩
  intro m hm
  obtain ⟨e, he, rfl⟩ := List.mem_map.1 hm
  exact whole_metadata (h.1 e he)

theorem parse?_written {p : Proposal} {d : Doc} (hread : Form.read nestingLimit d = some p)
    (hwhole : p.Whole) :
    parse? Proposal (toText p) = some p ∧ parse? Proposal (toPretty p) = some p := by
  have hkept : Rereads nestingLimit p := keeps_proposal _ d p (by decide) hread hwhole
  exact ⟨hkept.parse?_toText (whole_write hwhole), hkept.parse?_toPretty (whole_write hwhole)⟩

/-! ## Checks -/

theorem ofBytes_eq_ok {now : Int} {bs : List UInt8} {p : Proposal} :
    ofBytes now bs = .ok p ↔
      Reader.ofBytes? (Form.read : Reader Proposal) bs = some p ∧ p.Valid now := by
  unfold ofBytes
  constructor
  · intro h
    split at h
    · rename_i q hq
      unfold validated at h
      cases hv : q.validateAt now with
      | error f =>
        rw [hv] at h
        cases h
      | ok u =>
        rw [hv] at h
        cases h
        exact ⟨hq, validateAt_eq_ok.1 hv⟩
    · cases h
  · rintro ⟨hread, hvalid⟩
    rw [hread]
    show (p.validated now).mapError Error.proposal = .ok p
    rw [validated, validateAt_eq_ok.2 hvalid]
    rfl

theorem toDocument_of_valid {now : Int} {p : Proposal} (h : p.Valid now) :
    p.toDocument now = .ok (toPretty p) := by
  rw [toDocument, validated, validateAt_eq_ok.2 h]
  rfl

/-- Whether a proposal is valid depends on the time by the expiry alone. -/
theorem Valid.at {p : Proposal} {now now' : Int} (h : p.Valid now)
    (hlt : now' < p.validUntil.toNat) : p.Valid now' := { h with unexpired := hlt }

/-- A proposal that has been read and has no floats is read from both of its written forms, and what
is read there is written in the same way. While it has not expired, one that passed the checks is
written, and what is written passes them as the same proposal. -/
theorem json_round_trip {bs : List UInt8} {p : Proposal}
    (hread : Reader.ofBytes? (Form.read : Reader Proposal) bs = some p) (hwhole : p.Whole) :
    (∀ t ∈ [toText p, toPretty p], parse? Proposal t = some p ∧
      ∀ q, parse? Proposal t = some q → toText q = toText p ∧ toPretty q = toPretty p) ∧
    ∀ now now' now'' : Int, now' < p.validUntil.toNat → now'' < p.validUntil.toNat →
      ofBytes now bs = .ok p → ∃ t, p.toDocument now' = .ok t ∧ ofText now'' t = .ok p := by
  obtain ⟨d, _, hd⟩ := Option.bind_eq_some_iff.1 hread
  obtain ⟨htext, hpretty⟩ := parse?_written hd hwhole
  constructor
  · intro t ht
    have hp : parse? Proposal t = some p := by
      rcases List.mem_pair.1 ht with rfl | rfl
      · exact htext
      · exact hpretty
    refine ⟨hp, fun q hq => ?_⟩
    obtain rfl : p = q := Option.some.inj (hp.symm.trans hq)
    exact ⟨rfl, rfl⟩
  · intro now now' now'' hbefore hbefore' h
    have hvalid := (ofBytes_eq_ok.1 h).2
    exact ⟨toPretty p, toDocument_of_valid (hvalid.at hbefore),
      ofBytes_eq_ok.2 ⟨hpretty, hvalid.at hbefore'⟩⟩

/-- A text with members in another order than they are written in, with a record that is given as an
array and with fields that are left out. -/
def looseText : String :=
  "\x7b\"transactions\":[\x7b\"to\":\"\",\"chainSelector\":1,\"additionalFields\":\x7b\"b\":-7,\"a\":[]" ++
  "\x7d\x7d],\"chainMetadata\":\x7b\"1\":[7,\"\"]\x7d,\"description\":\"\\n\",\"validUntil\":9," ++
  "\"version\":\"v1\"\x7d"

theorem json_round_trip_loose : ∃ p, p.Whole ∧ ofText 0 looseText = .ok p ∧
    parse? Proposal (toText p) = some p ∧ ∃ t, p.toDocument 1 = .ok t ∧ ofText 8 t = .ok p := by
  have hevaluated : (Reader.ofBytes? (Form.read : Reader Proposal) (Text.bytes looseText)).any
      (fun p => p.Whole && p.validateAt 0 == .ok () && p.validUntil == 9) = true := by
    decide +kernel
  obtain ⟨p, hread, hp⟩ := (Option.any_eq_true _ _).1 hevaluated
  simp only [Bool.and_eq_true, decide_eq_true_eq, beq_iff_eq] at hp
  obtain ⟨⟨hwhole, hvalid⟩, hexpiry⟩ := hp
  have hbefore : (8 : Int) < p.validUntil.toNat := by
    rw [hexpiry]
    decide
  have hok : ofText 0 looseText = .ok p := ofBytes_eq_ok.2 ⟨hread, validateAt_eq_ok.1 hvalid⟩
  obtain ⟨hforms, hchecked⟩ := json_round_trip hread hwhole
  exact ⟨p, hwhole, hok, (hforms _ (List.mem_cons_self ..)).1,
    hchecked 0 1 8 (by omega) hbefore hok⟩

end Quorate.Proposal
