/-
Validity: a proposal is valid at a time when all of its parts are there, it has not expired, and the
chain of every operation is known. Otherwise the first of its flaws is reported, of which there may
be many at once.
-/
import Quorate.Proofs.Table
import Quorate.Proposal.Basic
import Mathlib.Data.Nat.Find

namespace Quorate.Proposal

/-- What a proposal that is valid at a time has. -/
structure Valid (p : Proposal) (now : Int) : Prop where
  version : p.version.isEmpty = false
  unexpired : now < p.validUntil.toNat
  chains : p.chains.isEmpty = false
  operations : p.operations ≠ []
  description : p.description.isEmpty = false
  known : ∀ op ∈ p.operations, ∃ m, p.chains.get? op.chain = some m

theorem stray?_eq_none {p : Proposal} :
    p.stray? = none ↔ ∀ op ∈ p.operations, ∃ m, p.chains.get? op.chain = some m := by
  unfold stray?
  rw [List.find?_eq_none]
  simp only [Bool.not_eq_true', Bool.not_eq_false, Table.contains_iff]

theorem validateAt_eq_ok {p : Proposal} {now : Int} : p.validateAt now = .ok () ↔ Valid p now := by
  unfold validateAt
  constructor
  · intro h
    split at h
    · cases h
    split at h
    · cases h
    split at h
    · cases h
    split at h
    · cases h
    split at h
    · cases h
    split at h
    · cases h
    rename_i h1 h2 h3 h4 h5 _ h6
    exact ⟨by simpa using h1, by omega, by simpa using h3, by simpa using h4, by simpa using h5,
      stray?_eq_none.1 h6⟩
  · rintro ⟨h1, h2, h3, h4, h5, h6⟩
    rw [h1, h3, h5, stray?_eq_none.2 h6]
    simp [h4]
    omega

theorem validated_eq_ok {p q : Proposal} {now : Int} :
    p.validated now = .ok q ↔ p = q ∧ Valid p now := by
  rw [← validateAt_eq_ok]
  unfold validated
  cases p.validateAt now <;> simp [Functor.map, Except.map]

/-- A proposal that is valid at some time has a chain. -/
theorem Valid.selectors_ne_nil {p : Proposal} {now : Int} (h : Valid p now) : p.selectors ≠ [] := by
  have := h.chains
  unfold Table.isEmpty at this
  unfold selectors Table.keys
  simpa using this

/-! ## Flaws -/

/-- What is amiss with a proposal at a time, and the place at which it is looked for. Operations on
unknown chains are looked for last, in their order. -/
inductive Flaw (p : Proposal) (now : Int) : Nat → Fault → Prop
  | noVersion : p.version = "" → Flaw p now 0 .noVersion
  | expired : p.validUntil.toNat ≤ now → Flaw p now 1 (.expired p.validUntil)
  | noChains : (∀ chain, p.chains.get? chain = none) → Flaw p now 2 .noChains
  | noOperations : p.operations = [] → Flaw p now 3 .noOperations
  | noDescription : p.description = "" → Flaw p now 4 .noDescription
  | unknownChain {i : Nat} {op : Operation} : p.operations[i]? = some op →
      p.chains.get? op.chain = none → Flaw p now (i + 5) (.unknownChain op.chain)

/-- A flaw before which there is no other. -/
def FirstFlaw (p : Proposal) (now : Int) (fault : Fault) : Prop :=
  ∃ place, Flaw p now place fault ∧ ∀ earlier < place, ∀ other, ¬ Flaw p now earlier other

theorem valid_iff_flawless {p : Proposal} {now : Int} :
    Valid p now ↔ ∀ place fault, ¬ Flaw p now place fault := by
  constructor
  · rintro ⟨hversion, hunexpired, hchains, hoperations, hdescription, hknown⟩ place fault hflaw
    cases hflaw with
    | noVersion h => simp [h] at hversion
    | expired h => omega
    | noChains h =>
      rw [Table.isEmpty_iff.2 h] at hchains
      cases hchains
    | noOperations h => exact hoperations h
    | noDescription h => simp [h] at hdescription
    | unknownChain hi h =>
      obtain ⟨m, hm⟩ := hknown _ (List.mem_of_getElem? hi)
      rw [h] at hm
      cases hm
  · intro hflawless
    refine ⟨?_, ?_, ?_, fun h => hflawless 3 _ (.noOperations h), ?_, fun op hop => ?_⟩
    · exact Bool.eq_false_iff.2 fun h => hflawless 0 _ (.noVersion (String.isEmpty_iff.1 h))
    · exact Int.lt_of_not_ge fun h => hflawless 1 _ (.expired h)
    · exact Bool.eq_false_iff.2 fun h => hflawless 2 _ (.noChains (Table.isEmpty_iff.1 h))
    · exact Bool.eq_false_iff.2 fun h => hflawless 4 _ (.noDescription (String.isEmpty_iff.1 h))
    · obtain ⟨i, hi⟩ := List.mem_iff_getElem?.1 hop
      exact Option.ne_none_iff_exists'.1 fun h => hflawless (i + 5) _ (.unknownChain hi h)

theorem stray?_of_getElem? {p : Proposal} {op : Operation} {i : Nat}
    (hi : p.operations[i]? = some op) (hnone : p.chains.get? op.chain = none)
    (hfirst : ∀ j < i, ∀ earlier : Operation, p.operations[j]? = some earlier →
      p.chains.get? earlier.chain ≠ none) : p.stray? = some op := by
  obtain ⟨hlt, rfl⟩ := List.getElem?_eq_some_iff.1 hi
  unfold stray?
  rw [List.find?_eq_some_iff_getElem]
  refine ⟨by simp [Table.contains, hnone], i, hlt, rfl, fun j hj => ?_⟩
  have hknown := hfirst j hj _ (List.getElem?_eq_getElem (by omega))
  simpa [Table.contains, Option.isSome_iff_ne_none] using hknown

/-- The first flaw is the one that is reported. -/
theorem validateAt_of_firstFlaw {p : Proposal} {now : Int} {fault : Fault}
    (h : FirstFlaw p now fault) : p.validateAt now = .error fault := by
  obtain ⟨place, hflaw, hfirst⟩ := h
  have hversion : 0 < place → ¬ p.version.isEmpty = true := fun hlt h =>
    hfirst 0 hlt _ (.noVersion (String.isEmpty_iff.1 h))
  have hunexpired : 1 < place → ¬ (p.validUntil.toNat : Int) ≤ now := fun hlt h =>
    hfirst 1 hlt _ (.expired h)
  have hchains : 2 < place → ¬ p.chains.isEmpty = true := fun hlt h =>
    hfirst 2 hlt _ (.noChains (Table.isEmpty_iff.1 h))
  have hoperations : 3 < place → ¬ p.operations.isEmpty = true := fun hlt h =>
    hfirst 3 hlt _ (.noOperations (List.isEmpty_iff.1 h))
  have hdescription : 4 < place → ¬ p.description.isEmpty = true := fun hlt h =>
    hfirst 4 hlt _ (.noDescription (String.isEmpty_iff.1 h))
  unfold validateAt
  cases hflaw with
  | noVersion h => rw [if_pos (String.isEmpty_iff.2 h)]
  | expired h => rw [if_neg (hversion (by decide)), if_pos h]
  | noChains h =>
    rw [if_neg (hversion (by decide)), if_neg (hunexpired (by decide)),
      if_pos (Table.isEmpty_iff.2 h)]
  | noOperations h =>
    rw [if_neg (hversion (by decide)), if_neg (hunexpired (by decide)),
      if_neg (hchains (by decide)), if_pos (List.isEmpty_iff.2 h)]
  | noDescription h =>
    rw [if_neg (hversion (by decide)), if_neg (hunexpired (by decide)),
      if_neg (hchains (by decide)), if_neg (hoperations (by decide)),
      if_pos (String.isEmpty_iff.2 h)]
  | unknownChain hi h =>
    rename_i i op
    have hstray : p.stray? = some op := stray?_of_getElem? hi h fun j hj earlier hearlier hnone =>
      hfirst (j + 5) (by omega) _ (.unknownChain hearlier hnone)
    rw [if_neg (hversion (by omega)), if_neg (hunexpired (by omega)), if_neg (hchains (by omega)),
      if_neg (hoperations (by omega)), if_neg (hdescription (by omega)), hstray]

theorem exists_firstFlaw {p : Proposal} {now : Int} (h : ¬ Valid p now) :
    ∃ fault, FirstFlaw p now fault := by
  rw [valid_iff_flawless] at h
  push Not at h
  classical
  obtain ⟨fault, hflaw⟩ := Nat.find_spec h
  refine ⟨fault, Nat.find h, hflaw, fun earlier hlt other hother => ?_⟩
  exact Nat.find_min h hlt ⟨other, hother⟩

theorem validateAt_eq_error {p : Proposal} {now : Int} {fault : Fault} :
    p.validateAt now = .error fault ↔ FirstFlaw p now fault := by
  refine ⟨fun h => ?_, validateAt_of_firstFlaw⟩
  have hinvalid : ¬ Valid p now := by
    rw [← validateAt_eq_ok, h]
    nofun
  obtain ⟨first, hfirst⟩ := exists_firstFlaw hinvalid
  rw [validateAt_of_firstFlaw hfirst] at h
  cases h
  exact hfirst

end Quorate.Proposal
