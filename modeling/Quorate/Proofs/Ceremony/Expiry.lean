/-
Expiry: a proposal passes one check wherever it is taken in, and the same check again whenever it is
signed or given out later. By then it may have gained signatures, of itself or in ceremonies, but the
check does not look at these. So nothing but the time can make it fail later, and once it has failed
it fails for good.
-/
import Quorate.Proofs.Ceremony.Course
import Quorate.Proofs.Proposal.RoundTrip
import Quorate.Proposal.Draft

namespace Quorate.Proposal

/-! ## Accepted proposals -/

/-- A proposal is taken in at a time: built from a draft after any steps, or read from a text or from
bytes. -/
inductive Accepted (now : Int) (p : Proposal) : Prop
  | built (steps : List Draft.Step) : (Draft.ofSteps steps).build now = .ok p → Accepted now p
  | ofText (s : String) : ofText now s = .ok p → Accepted now p
  | ofBytes (bs : List UInt8) : ofBytes now bs = .ok p → Accepted now p

/-- Whichever way it was taken in, it was valid then. -/
theorem Accepted.valid {p : Proposal} {now : Int} (h : Accepted now p) : p.Valid now := by
  cases h with
  | built steps hbuilt =>
    obtain ⟨rfl, hvalid⟩ := validated_eq_ok.1 hbuilt
    exact hvalid
  | ofText s hread => exact (ofBytes_eq_ok.1 hread).2
  | ofBytes bs hread => exact (ofBytes_eq_ok.1 hread).2

/-! ## Appended signatures -/

/-- What becomes of a proposal to which signatures are appended: one at a time, or on the course of a
ceremony that it is taken into and out of again. -/
inductive Appended (p : Proposal) : Proposal → Prop
  | none : Appended p p
  | signature {q : Proposal} (sig : Signature) : Appended p q → Appended p (q.addSignature sig)
  | ceremony {q : Proposal} {σ : Type} {encoders : Encoders} {c d : Ceremony σ}
      {events : List (Ceremony.Action σ × Except Error Ceremony.Answer)} :
      Appended p q → Ceremony.start q encoders = .ok c → c.Course events d → Appended p d.proposal

/-- Nothing else becomes of it. The induction is on the run of appends. -/
theorem Appended.exists_signatures {p q : Proposal} (h : Appended p q) :
    ∃ sigs, q = { p with signatures := p.signatures ++ sigs } := by
  induction h with
  | none => exact ⟨[], by rw [List.append_nil]⟩
  | signature sig _ ih =>
    obtain ⟨sigs, rfl⟩ := ih
    exact ⟨sigs ++ [sig], by rw [addSignature, List.append_assoc]⟩
  | ceremony _ hstart hcourse ih =>
    obtain ⟨sigs, rfl⟩ := ih
    obtain ⟨k, _, rfl⟩ := Ceremony.start_eq_ok.1 hstart
    exact ⟨_, by rw [hcourse.gains.proposal, List.append_assoc]⟩

theorem Appended.validateAt {p q : Proposal} (h : Appended p q) (now : Int) :
    q.validateAt now = p.validateAt now := by
  obtain ⟨sigs, rfl⟩ := h.exists_signatures
  rfl

/-! ## Checks at other times -/

/-- Of a proposal that was valid once, time alone decides. -/
theorem Valid.validateAt {p : Proposal} {t : Int} (h : p.Valid t) (now : Int) : p.validateAt now =
    if now < p.validUntil.toNat then .ok () else .error (.expired p.validUntil) := by
  split
  · rename_i hlt
    exact validateAt_eq_ok.2 (h.at hlt)
  · rename_i hge
    refine validateAt_of_firstFlaw ⟨1, .expired (Int.not_lt.1 hge), fun earlier hlt other hflaw => ?_⟩
    obtain rfl := Nat.lt_one_iff.1 hlt
    cases hflaw with
    | noVersion hempty => simpa [hempty] using h.version

/-- A proposal that was taken in, with whatever signatures it has gained since, is valid until it
expires and fails by the expiry from then on; and once it has failed it is never valid again, however
many signatures are still appended. Of any proposal at any time the first flaw is reported, and it
is valid if there is none. -/
theorem accepted_proposals_only_expire :
    (∀ (t : Int) (p q : Proposal), Accepted t p → Appended p q → ∀ now : Int,
      (q.validateAt now =
        if now < p.validUntil.toNat then .ok () else .error (.expired p.validUntil)) ∧
      ∀ fault, q.validateAt now = .error fault → ∀ (r : Proposal) (later : Int), Appended q r →
        now ≤ later → r.validateAt later = .error (.expired p.validUntil)) ∧
    ∀ (p : Proposal) (now : Int),
      (p.validateAt now = .ok () ↔ ∀ place fault, ¬ Flaw p now place fault) ∧
      ∀ fault, p.validateAt now = .error fault ↔ FirstFlaw p now fault := by
  constructor
  · intro t p q haccepted happended now
    have hcheck := haccepted.valid.validateAt
    refine ⟨(happended.validateAt now).trans (hcheck now), fun fault hfault r later hr hle => ?_⟩
    have hexpired : ¬ now < p.validUntil.toNat := by
      intro hlt
      rw [happended.validateAt, hcheck, if_pos hlt] at hfault
      cases hfault
    rw [hr.validateAt, happended.validateAt, hcheck, if_neg (by omega)]
  · intro p now
    exact ⟨validateAt_eq_ok.trans valid_iff_flawless, fun fault => validateAt_eq_error⟩

/-- The drafted proposal is signed once in a ceremony and gains another signature outside. It expires
at its time, after which a third signature is of no use. Without its chains and its description the
sample proposal has three flaws or more, and the chains are what is reported. -/
theorem drafted_proposal_expires_with_its_signatures :
    (∃ p q : Proposal, Accepted 0 p ∧ Appended p q ∧ q.signatures.map (·.v) = [1, 27] ∧
      q.validateAt 3999999999 = .ok () ∧
      (q.addSignature Sample.signature).validateAt 4000000001 = .error (.expired 4000000000)) ∧
    validateAt { Sample.proposal with chains := ∅, description := "" } 0 = .error .noChains := by
  obtain ⟨hexpiry, hflaws⟩ := accepted_proposals_only_expire
  constructor
  · obtain ⟨p, hp⟩ : ∃ p, (Draft.ofSteps Sample.steps).build 0 = .ok p := ⟨_, rfl⟩
    have haccepted : Accepted 0 p := .built _ hp
    cases hp
    obtain ⟨c, hc⟩ : ∃ c : Ceremony Unit,
      Ceremony.start (Draft.ofSteps Sample.steps).soFar Sample.encoders = .ok c := ⟨_, rfl⟩
    have happended := Appended.signature Sample.signature (.ceremony .none hc
      (.next (.signAndAppend 1 (Sample.stamp (List.replicate 65 1))) () (.start (c := c))))
    refine ⟨_, _, haccepted, happended, ?_, ?_, ?_⟩
    · cases hc
      rfl
    · exact (hexpiry 0 _ _ haccepted happended 3999999999).1
    · have hlate := hexpiry 0 _ _ haccepted happended 4000000000
      exact hlate.2 _ hlate.1 _ 4000000001 (.signature _ .none) (by decide)
  · refine ((hflaws _ 0).2 _).2 ⟨2, .noChains fun chain => rfl, fun earlier hlt other hflaw => ?_⟩
    cases hflaw with
    | noVersion h => exact absurd h (by decide)
    | expired h => exact absurd h (by decide)
    | _ => omega

end Quorate.Proposal
