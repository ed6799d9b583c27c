/-
Agreement: whether the chains of a proposal hold one policy, up to order. Each policy is compared
with the one before it only, and that is enough: being the same up to order is an equivalence, so
neighbours that agree make all agree, and the first that do not are the error. Where all agree, the
signatures are judged alike on every chain.
-/
import Quorate.Proofs.Ceremony.Checks
import Quorate.Proofs.Ceremony.Committed
import Quorate.Proofs.Policy.Reordering
import Quorate.Proofs.Sample
import Mathlib.Data.List.Chain

namespace Quorate.Ceremony

open Policy (Reordering sameAs_iff)

variable {σ : Type} {held : Selector → Policy}

/-! ## Neighbours -/

/-- Two chains hold the same policy, up to order. -/
def Agree (held : Selector → Policy) (a b : Selector) : Prop := Reordering (held a) (held b)

instance : Trans (Agree held) (Agree held) (Agree held) := ⟨Reordering.trans⟩

instance : Std.Symm (Agree held) := ⟨fun _ _ => Reordering.symm⟩

/-- If each chain agrees with the next one, all agree. -/
theorem sameAs_of_isChain {chains : List Selector} (h : chains.IsChain (Agree held)) :
    ∀ a ∈ chains, ∀ b ∈ chains, (held a).sameAs (held b) = true := by
  intro a ha b hb
  have hself : ∀ x ∈ chains, Agree held x x := fun x _ => Reordering.refl (held x)
  have hab : Agree held a b :=
    List.Pairwise.forall_of_forall hself (List.isChain_iff_pairwise.1 h) ha hb
  exact sameAs_iff.2 hab

/-- The policies of chains, each beside its chain. -/
def listed (held : Selector → Policy) (chains : List Selector) : List (Selector × Policy) :=
  chains.map fun chain => (chain, held chain)

theorem isChain_of_firstChange? : ∀ {chains : List Selector},
    firstChange? (listed held chains) = none → chains.IsChain (Agree held)
  | [], _ => .nil
  | [a], _ => .singleton a
  | a :: b :: rest, h => by
    simp only [listed, List.map_cons, firstChange?] at h
    split at h
    · rename_i hsame
      exact .cons_cons (sameAs_iff.1 hsame).symm (isChain_of_firstChange? h)
    · cases h

/-- The change that is found is between neighbours, and all chains up to it agree. -/
theorem firstChange?_eq_some : ∀ {chains : List Selector} {chain before : Selector},
    firstChange? (listed held chains) = some (chain, before) →
      ∃ earlier later, chains = earlier ++ before :: chain :: later ∧
        (held chain).sameAs (held before) = false ∧
        (earlier ++ [before]).IsChain (Agree held)
  | [], _, _, h => by cases h
  | [a], _, _, h => by cases h
  | a :: b :: rest, chain, before, h => by
    simp only [listed, List.map_cons, firstChange?] at h
    split at h
    · rename_i hsame
      have hab : Agree held a b := (sameAs_iff.1 hsame).symm
      have h : firstChange? (listed held (b :: rest)) = some (chain, before) := h
      obtain ⟨earlier, later, hsplit, hchange, hagree⟩ := firstChange?_eq_some h
      refine ⟨a :: earlier, later, by rw [hsplit, List.cons_append], hchange, ?_⟩
      -- `b` is the first of those up to the change
      cases earlier with
      | nil =>
        cases hsplit
        exact .cons_cons hab hagree
      | cons _ earlier =>
        cases hsplit
        exact .cons_cons hab hagree
    · rename_i hchange
      cases h
      exact ⟨[], rest, rfl, by simpa using hchange, .singleton _⟩

/-! ## Chains that hold their policies -/

/-- The contract of each chain of the proposal holds a policy: whenever it is asked for it, it
answers with that one. -/
def Holds (c : Ceremony σ) (held : Selector → Policy) : Prop :=
  ∀ chain m, c.proposal.chains.get? chain = some m → ∃ x, c.inspector chain = .ok x ∧
    ∀ w, ∃ w', outcome (x.policy m.contract) w = (.ok (held chain), w')

section Held

variable {c : Ceremony σ} (hholds : c.Holds held)
include hholds

/-- All inspectors are there, and each answers with the policy of its chain. -/
theorem Holds.inspected : ∃ chains, c.inspected = .ok chains ∧
    List.Forall₂ (fun x e => x.1 = e.1 ∧
      ∀ w, ∃ w', outcome (x.2.2.policy x.2.1.contract) w = (.ok (held e.1), w'))
      chains c.proposal.chains.entries := by
  have hentry : ∀ e ∈ c.proposal.chains.entries, ∃ x, c.inspector e.1 = .ok x ∧
      ∀ w, ∃ w', outcome (x.policy e.2.contract) w = (.ok (held e.1), w') :=
    fun e he => hholds e.1 e.2 (Table.get?_eq_some.2 he)
  cases hchains : c.inspected with
  | error e =>
    obtain ⟨entry, hmem, herror⟩ := exists_of_mapM_eq_error hchains
    obtain ⟨x, hx, _⟩ := hentry entry hmem
    rw [hx] at herror
    cases herror
  | ok chains =>
    refine ⟨chains, rfl, ?_⟩
    refine (((List.forall₂_and_left _ _).2 ⟨hentry, mapM_eq_ok.1 hchains⟩).imp ?_).flip
    rintro e x' ⟨⟨x, hx, hanswer⟩, hpair⟩
    rw [hx] at hpair
    cases hpair
    exact ⟨rfl, hanswer⟩

theorem Holds.policies (w : σ) :
    ∃ w', outcome c.policies w = (.ok (listed held c.proposal.selectors), w') := by
  obtain ⟨chains, hchains, hanswers⟩ := hholds.inspected
  have hlisted : listed held c.proposal.selectors =
      c.proposal.chains.entries.map fun e => (e.1, held e.1) := List.map_map
  unfold Ceremony.policies askAll
  rw [hlisted, hchains]
  refine outcome_mapM_of_forall₂ (List.forall₂_map_right_iff.2 (hanswers.imp ?_)) w
  rintro x e ⟨hchain, hanswer⟩ w
  obtain ⟨w', hanswer⟩ := hanswer w
  refine ⟨w', ?_⟩
  rw [outcome_map, outcome_asking_eq_ok.2 hanswer, hchain]
  rfl

/-- All is well if no policy differs from the one before it; otherwise the first that does is the
error. -/
theorem Holds.validatePolicies (w : σ) : (outcome c.validatePolicies w).1 =
    match firstChange? (listed held c.proposal.selectors) with
    | some (chain, before) => .error (.inconsistentPolicies chain before)
    | none => .ok () := by
  obtain ⟨w', hpolicies⟩ := hholds.policies w
  unfold Ceremony.validatePolicies
  rw [outcome_bind, hpolicies]
  dsimp only
  cases firstChange? (listed held c.proposal.selectors) with
  | none => rfl
  | some change => rfl

/-- The check of a chain comes to what its policy says of those who signed. -/
theorem Holds.checkQuorum {chain : Selector} (hchain : chain ∈ c.proposal.selectors) (w : σ) :
    (outcome (c.checkQuorum chain) w).1 = c.signers >>= authorized (held chain) := by
  obtain ⟨m, hm⟩ := Table.mem_keys.1 hchain
  obtain ⟨x, hx, hanswer⟩ := hholds chain m hm
  obtain ⟨w', hanswer⟩ := hanswer w
  have hanswers : c.Answers chain w (held chain) w' := ⟨x, m, hx, hm, hanswer⟩
  exact hanswers.checkQuorum

/-! ## Agreement -/

/-- The policies are found to be the same exactly when any two of them are. -/
theorem Holds.validatePolicies_eq_ok (w : σ) : (outcome c.validatePolicies w).1 = .ok () ↔
    ∀ a ∈ c.proposal.selectors, ∀ b ∈ c.proposal.selectors,
      (held a).sameAs (held b) = true := by
  rw [hholds.validatePolicies w]
  cases hfirst : firstChange? (listed held c.proposal.selectors) with
  | none => exact iff_of_true rfl (sameAs_of_isChain (isChain_of_firstChange? hfirst))
  | some change =>
    obtain ⟨chain, before⟩ := change
    obtain ⟨earlier, later, hsplit, hchange, _⟩ := firstChange?_eq_some hfirst
    refine iff_of_false nofun fun hall => ?_
    have hsame := hall chain (by simp [hsplit]) before (by simp [hsplit])
    rw [hchange] at hsame
    cases hsame

/-- The error names neighbours, and all up to the first of the two agree. -/
theorem Holds.validatePolicies_eq_error {w : σ} {e : Error}
    (h : (outcome c.validatePolicies w).1 = .error e) :
    ∃ earlier before chain later, c.proposal.selectors = earlier ++ before :: chain :: later ∧
      compare before chain = .lt ∧ e = .inconsistentPolicies chain before ∧
      (held chain).sameAs (held before) = false ∧
      ∀ a ∈ earlier ++ [before], ∀ b ∈ earlier ++ [before], (held a).sameAs (held b) = true := by
  rw [hholds.validatePolicies w] at h
  cases hfirst : firstChange? (listed held c.proposal.selectors) with
  | none =>
    rw [hfirst] at h
    cases h
  | some change =>
    obtain ⟨chain, before⟩ := change
    rw [hfirst] at h
    cases h
    obtain ⟨earlier, later, hsplit, hchange, hagree⟩ := firstChange?_eq_some hfirst
    have hsorted : c.proposal.selectors.Pairwise fun a b => compare a b = .lt :=
      Table.keys_ascending _
    rw [hsplit] at hsorted
    have hlt : compare before chain = .lt :=
      (List.pairwise_cons.1 (List.pairwise_append.1 hsorted).2.1).1 chain (List.mem_cons_self ..)
    exact ⟨earlier, before, chain, later, hsplit, hlt, rfl, hchange, sameAs_of_isChain hagree⟩

theorem Holds.checkQuorum_alike {a b : Selector} (ha : a ∈ c.proposal.selectors)
    (hb : b ∈ c.proposal.selectors) (hsame : (held a).sameAs (held b) = true) (w₁ w₂ : σ) :
    (outcome (c.checkQuorum a) w₁).1 = (outcome (c.checkQuorum b) w₂).1 := by
  have hauthorizes := (sameAs_iff.1 hsame).authorizes_eq
  rw [hholds.checkQuorum ha, hholds.checkQuorum hb]
  unfold authorized
  simp only [hauthorizes]

/-- The policies are found to be the same exactly when any two of them are, whatever chains they are
on. Then the signatures are judged alike on all chains. Otherwise the error names the first chain
whose policy differs from that of the chain just before it, and all up to that one agree. -/
theorem policies_agree_or_first_change_is_named (w : σ) :
    ((outcome c.validatePolicies w).1 = .ok () ↔
        ∀ a ∈ c.proposal.selectors, ∀ b ∈ c.proposal.selectors,
          (held a).sameAs (held b) = true) ∧
      ((outcome c.validatePolicies w).1 = .ok () →
        ∀ a ∈ c.proposal.selectors, ∀ b ∈ c.proposal.selectors, ∀ w₁ w₂,
          (outcome (c.checkQuorum a) w₁).1 = (outcome (c.checkQuorum b) w₂).1) ∧
      ∀ e, (outcome c.validatePolicies w).1 = .error e →
        ∃ earlier before chain later,
          c.proposal.selectors = earlier ++ before :: chain :: later ∧
          compare before chain = .lt ∧ e = .inconsistentPolicies chain before ∧
          (held chain).sameAs (held before) = false ∧
          ∀ a ∈ earlier ++ [before], ∀ b ∈ earlier ++ [before],
            (held a).sameAs (held b) = true := by
  have hagree := hholds.validatePolicies_eq_ok w
  refine ⟨hagree, fun hok a ha b hb w₁ w₂ => ?_, fun e he => hholds.validatePolicies_eq_error he⟩
  exact hholds.checkQuorum_alike ha hb (hagree.1 hok a ha b hb) w₁ w₂

end Held

/-- Inspectors that each hold a policy make the chains hold them. -/
theorem holds_withInspectors (c : Ceremony Unit) (held : Selector → Policy) :
    (c.withInspectors (c.proposal.chains.map fun chain _ => Sample.holding (held chain))).Holds
      held := by
  intro chain m hm
  refine ⟨Sample.holding (held chain), Table.find_of_get? _ ?_, fun w => ⟨w, rfl⟩⟩
  have hm : c.proposal.chains.get? chain = some m := hm
  rw [Table.get?_map, hm]
  rfl

/-- A council that sits in another order on the second chain is the same council, and judges alike.
One that asks for less there is not. -/
theorem reseated_council_agrees : ∃ c d d' : Ceremony Unit,
    start Sample.proposal Sample.encoders = .ok c ∧
      d.Holds (Sample.held Sample.reseated) ∧ (outcome d.validatePolicies ()).1 = .ok () ∧
      (outcome (d.checkQuorum Sample.one) ()).1 = (outcome (d.checkQuorum Sample.two) ()).1 ∧
      d'.Holds (Sample.held (.node 1 [Sample.member 1] [])) ∧
      (outcome d'.validatePolicies ()).1 ≠ .ok () := by
  obtain ⟨c, hc⟩ : ∃ c : Ceremony Unit, start Sample.proposal Sample.encoders = .ok c := ⟨_, rfl⟩
  have hproposal : c.proposal = Sample.proposal := by
    obtain ⟨k, _, rfl⟩ := start_eq_ok.1 hc
    rfl
  have hone : Sample.one ∈ c.proposal.selectors := by rw [hproposal]; decide
  have htwo : Sample.two ∈ c.proposal.selectors := by rw [hproposal]; decide
  have hsame : ∀ a ∈ c.proposal.selectors, ∀ b ∈ c.proposal.selectors,
      (Sample.held Sample.reseated a).sameAs (Sample.held Sample.reseated b) = true := by
    rw [hproposal]; decide
  have hholds := holds_withInspectors c (Sample.held Sample.reseated)
  have hholds' := holds_withInspectors c (Sample.held (.node 1 [Sample.member 1] []))
  obtain ⟨hagree, halike, _⟩ := policies_agree_or_first_change_is_named hholds ()
  obtain ⟨hagree', _, _⟩ := policies_agree_or_first_change_is_named hholds' ()
  have hok := hagree.2 hsame
  refine ⟨c, _, _, hc, hholds, hok, halike hok _ hone _ htwo () (), hholds', fun hok' => ?_⟩
  exact absurd (hagree'.1 hok' _ hone _ htwo) (by decide)

end Quorate.Ceremony
