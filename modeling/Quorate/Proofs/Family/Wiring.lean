/-
Wiring: the encoders that a proposal gets through the settings. The settings name the family of each
chain, the latest family that was registered under the name is asked, and chains are served one after
the other up to the first that is not. A ceremony that starts with these encoders lacks none.
-/
import Quorate.Family
import Quorate.Proofs.Ceremony.Checks
import Quorate.Proofs.Ceremony.Starting
import Mathlib.Data.List.Induction

namespace Quorate

variable {σ : Type}

namespace Registry

open Ceremony (Along)

/-! ## Families by name -/

/-- The latest of the registered families that has a name. -/
def latest? (families : List (Family σ)) (name : String) : Option (Family σ) :=
  families.reverse.find? (·.name = name)

/-- The registry of families that are registered one after the other. -/
def ofFamilies (families : List (Family σ)) : Registry σ := families.foldl register empty

theorem get?_ofFamilies (families : List (Family σ)) (name : String) :
    (ofFamilies families).families.get? name = latest? families name := by
  induction families using List.reverseRecOn with
  | nil => rfl
  | append_singleton families f ih =>
    have hafter : (ofFamilies (families ++ [f])).families =
        (ofFamilies families).families.insert f.name f := by
      unfold ofFamilies
      rw [List.foldl_append]
      rfl
    unfold latest? at ih ⊢
    rw [hafter, Table.get?_insert, List.reverse_append, List.reverse_singleton,
      List.singleton_append, List.find?_cons, ih]
    by_cases hname : name = f.name
    · simp [hname]
    · simp [hname, Ne.symm hname]

/-! ## One chain -/

section Chain

variable (families : List (Family σ)) (s : Settings) (p : Proposal)

/-- What the family of a chain is asked for. -/
def asked (chain : Selector) (settings : ChainSettings) : EncoderRequest :=
  ⟨chain, settings, Proposal.countOn chain p.operations, p.overridesRoot⟩

/-- A chain is served on the world `w`: the settings know it, and the latest family of the name that
they give makes the encoder and leaves the world `w'`. -/
def Serves (chain : Selector) (w : σ) (e : Encoder) (w' : σ) : Prop :=
  ∃ settings f, s.chains.get? chain = some settings ∧
    latest? families settings.family = some f ∧
    outcome (f.encoder (asked p chain settings)) w = (.ok e, w')

/-- A chain is not served on the world `w`: the settings do not know it, or no family has the name
that they give, or the family complains. -/
inductive Refuses (chain : Selector) (w : σ) : Error → σ → Prop
  | unsettled : s.chains.get? chain = none → Refuses chain w (.unsettledChain chain) w
  | unsupported {settings : ChainSettings} : s.chains.get? chain = some settings →
      latest? families settings.family = none →
      Refuses chain w (.unsupportedFamily settings.family) w
  | complaint {settings : ChainSettings} {f : Family σ} {c : Complaint} {w' : σ} :
      s.chains.get? chain = some settings → latest? families settings.family = some f →
      outcome (f.encoder (asked p chain settings)) w = (.error c, w') →
      Refuses chain w (.collaborator c) w'

variable {families s p} {chain : Selector} {w w' : σ}

/-- The chain is looked up in the settings, its family in the registry, and then the family is asked. -/
theorem outcome_encoderFor (chain : Selector) (w : σ) :
    outcome ((ofFamilies families).encoderFor s p chain) w =
      match s.chains.get? chain with
      | none => (.error (.unsettledChain chain), w)
      | some settings =>
        match latest? families settings.family with
        | none => (.error (.unsupportedFamily settings.family), w)
        | some f =>
          match outcome (f.encoder (asked p chain settings)) w with
          | (.ok e, w') => (.ok (chain, e), w')
          | (.error c, w') => (.error (.collaborator c), w') := by
  unfold encoderFor
  rw [outcome_lift_bind]
  unfold request Settings.familyOf Settings.chain family Table.find asked
  rw [Proposal.getD_get?_counts]
  cases s.chains.get? chain with
  | none => rfl
  | some settings =>
    simp only [map_ok, ok_bind, get?_ofFamilies]
    cases latest? families settings.family with
    | none => rfl
    | some f =>
      simp only [ok_bind, outcome_bind, outcome_asking]
      rcases outcome (f.encoder _) w with ⟨_ | _, _⟩ <;> rfl

theorem outcome_encoderFor_eq_ok {entry : Selector × Encoder} :
    outcome ((ofFamilies families).encoderFor s p chain) w = (.ok entry, w') ↔
      entry.1 = chain ∧ Serves families s p chain w entry.2 w' := by
  rw [outcome_encoderFor]
  unfold Serves
  cases hs : s.chains.get? chain with
  | none => simp
  | some settings =>
    cases hf : latest? families settings.family with
    | none => simp [hf]
    | some f =>
      rcases ho : outcome (f.encoder (asked p chain settings)) w with ⟨_ | e, w₁⟩
      · simp [hf, ho]
      · obtain ⟨chain', e'⟩ := entry
        simp [hf, ho, eq_comm, and_assoc]

theorem outcome_encoderFor_eq_error {fault : Error} :
    outcome ((ofFamilies families).encoderFor s p chain) w = (.error fault, w') ↔
      Refuses families s p chain w fault w' := by
  rw [outcome_encoderFor]
  constructor
  · intro h
    split at h
    · rename_i hs
      cases h
      exact .unsettled hs
    · rename_i settings hs
      split at h
      · rename_i hf
        cases h
        exact .unsupported hs hf
      · rename_i f hf
        split at h
        · cases h
        · rename_i c w₁ ho
          cases h
          exact .complaint hs hf ho
  · intro h
    cases h with
    | unsettled hs => simp only [hs]
    | unsupported hs hf => simp only [hs, hf]
    | complaint hs hf ho => simp only [hs, hf, ho]

/-! ## All chains -/

theorem keys_of_mapM_encoderFor : ∀ {chains : List Selector} {w : σ}
    {entries : List (Selector × Encoder)},
    outcome (chains.mapM ((ofFamilies families).encoderFor s p)) w = (.ok entries, w') →
      entries.map (·.1) = chains
  | [], _, _, h => by cases h; rfl
  | chain :: chains, _, _, h => by
    obtain ⟨e, w₁, rest, he, hrest, rfl⟩ := outcome_mapM_cons_eq_ok.1 h
    rw [List.map_cons, (outcome_encoderFor_eq_ok.1 he).1, keys_of_mapM_encoderFor hrest]

/-- Chains get good encoders in turn when each is served with one, on the world that the one before
leaves. -/
theorem exists_mapM_encoderFor (good : Selector → Encoder → Prop) :
    ∀ (chains : List Selector) {w : σ},
      (∃ entries, outcome (chains.mapM ((ofFamilies families).encoderFor s p)) w =
        (.ok entries, w') ∧ ∀ e ∈ entries, good e.1 e.2) ↔
      Along (fun chain v v' => ∃ e, good chain e ∧ Serves families s p chain v e v') chains w w'
  | [], w => by
    constructor
    · rintro ⟨entries, h, _⟩
      cases h
      rfl
    · rintro rfl
      exact ⟨[], rfl, nofun⟩
  | chain :: chains, w => by
    simp only [Along, outcome_mapM_cons_eq_ok, ← exists_mapM_encoderFor good chains]
    constructor
    · rintro ⟨_, ⟨e, w₁, rest, he, hrest, rfl⟩, hgood⟩
      obtain ⟨hhead, hgood⟩ := List.forall_mem_cons.1 hgood
      obtain ⟨rfl, hserves⟩ := outcome_encoderFor_eq_ok.1 he
      exact ⟨w₁, ⟨e.2, hhead, hserves⟩, rest, hrest, hgood⟩
    · rintro ⟨w₁, ⟨e, hhead, hserves⟩, rest, hrest, hgood⟩
      have he := outcome_encoderFor_eq_ok.2 (⟨rfl, hserves⟩ : (chain, e).1 = chain ∧ _)
      exact ⟨_, ⟨(chain, e), w₁, rest, he, hrest, rfl⟩, List.forall_mem_cons.2 ⟨hhead, hgood⟩⟩

theorem outcome_encodersFor (w : σ) : outcome ((ofFamilies families).encodersFor p s) w =
    match outcome (p.selectors.mapM ((ofFamilies families).encoderFor s p)) w with
    | (.ok entries, w') => (.ok (Table.ofList entries), w')
    | (.error fault, w') => (.error fault, w') := by
  unfold encodersFor
  rw [outcome_map]
  rcases outcome (p.selectors.mapM _) w with ⟨_ | _, _⟩ <;> rfl

theorem outcome_encodersFor_eq_ok {m : Encoders} :
    outcome ((ofFamilies families).encodersFor p s) w = (.ok m, w') ↔ m.keys = p.selectors ∧
      Along (fun chain v v' => ∃ e, m.get? chain = some e ∧ Serves families s p chain v e v')
        p.selectors w w' := by
  have hrun : outcome ((ofFamilies families).encodersFor p s) w = (.ok m, w') ↔ ∃ entries,
      outcome (p.selectors.mapM ((ofFamilies families).encoderFor s p)) w = (.ok entries, w') ∧
        Table.ofList entries = m := by
    rw [outcome_encodersFor]
    rcases outcome (p.selectors.mapM _) w with ⟨_ | entries, _⟩ <;> simp [and_comm]
  have hnodup : ∀ {entries : List (Selector × Encoder)}, entries.map (·.1) = p.selectors →
      (entries.map (·.1)).Nodup := fun h => h ▸ p.chains.nodup_keys
  rw [hrun, ← exists_mapM_encoderFor fun chain e => m.get? chain = some e]
  constructor
  · rintro ⟨entries, hentries, rfl⟩
    have hkeys := keys_of_mapM_encoderFor hentries
    refine ⟨?_, entries, hentries, fun e he => (Table.get?_ofList (hnodup hkeys)).2 he⟩
    rw [Table.keys_ofList (hkeys ▸ p.chains.keys_ascending), hkeys]
  · rintro ⟨hkeys, entries, hentries, hm⟩
    have hsame := keys_of_mapM_encoderFor hentries
    refine ⟨entries, hentries, Table.ext_get? fun chain => Option.ext fun e => ?_⟩
    rw [Table.get?_ofList (hnodup hsame)]
    refine ⟨fun he => hm (chain, e) he, fun he => ?_⟩
    -- the key is one of the chains, so one of the entries is for it
    have hchain : chain ∈ entries.map (·.1) := by
      rw [hsame, ← hkeys]
      exact Table.mem_keys.2 ⟨e, he⟩
    obtain ⟨⟨_, e'⟩, hmem, rfl⟩ := List.mem_map.1 hchain
    cases he.symm.trans (hm _ hmem)
    exact hmem

theorem outcome_encodersFor_eq_error {fault : Error} :
    outcome ((ofFamilies families).encodersFor p s) w = (.error fault, w') ↔
      ∃ before chain after v, p.selectors = before ++ chain :: after ∧
        Along (fun chain v v' => ∃ e, Serves families s p chain v e v') before w v ∧
        Refuses families s p chain v fault w' := by
  have hrun : outcome ((ofFamilies families).encodersFor p s) w = (.error fault, w') ↔
      outcome (p.selectors.mapM ((ofFamilies families).encoderFor s p)) w = (.error fault, w') := by
    rw [outcome_encodersFor]
    rcases outcome (p.selectors.mapM _) w with ⟨_ | entries, _⟩ <;> simp
  have hserved : ∀ {chains : List Selector} {v : σ},
      (∃ entries, outcome (chains.mapM ((ofFamilies families).encoderFor s p)) w =
        (.ok entries, v)) ↔
      Along (fun chain v v' => ∃ e, Serves families s p chain v e v') chains w v := by
    intro chains v
    simpa using exists_mapM_encoderFor (fun _ _ => True) chains
  rw [hrun, outcome_mapM_eq_error]
  simp only [outcome_encoderFor_eq_error, ← hserved]
  constructor
  · rintro ⟨before, chain, after, entries, v, hsplit, hbefore, hrefuses⟩
    exact ⟨before, chain, after, v, hsplit, ⟨entries, hbefore⟩, hrefuses⟩
  · rintro ⟨before, chain, after, v, hsplit, ⟨entries, hbefore⟩, hrefuses⟩
    exact ⟨before, chain, after, entries, v, hsplit, hbefore, hrefuses⟩

end Chain

end Registry

/-! ## No encoder is lacking -/

/-- A ceremony over a proposal with an encoder for each of its chains does not lack any. -/
theorem Ceremony.start_ne_noEncoder {encoders : Encoders} {p : Proposal} {chain : Selector}
    (h : encoders.keys = p.selectors) :
    (start p encoders : Except Error (Ceremony σ)) ≠ .error (.noEncoder chain) := by
  intro hfault
  cases start_eq_error.1 hfault with
  | noEncoder hmem _ hnone =>
    rw [← h] at hmem
    obtain ⟨encoder, hencoder⟩ := Table.mem_keys.1 hmem
    rw [hnone] at hencoder
    cases hencoder

namespace Registry

open Ceremony (Along)

variable {families families' : List (Family σ)} {s s' : Settings} {p : Proposal}

/-- What the settings say of other chains, and families of other names, have no part in it. -/
theorem outcome_encodersFor_congr
    (hsettings : ∀ chain ∈ p.selectors, s'.chains.get? chain = s.chains.get? chain)
    (hfamilies : ∀ chain ∈ p.selectors, ∀ settings, s.chains.get? chain = some settings →
      latest? families' settings.family = latest? families settings.family) (w : σ) :
    outcome ((ofFamilies families').encodersFor p s') w =
      outcome ((ofFamilies families).encodersFor p s) w := by
  have hchain : ∀ chain ∈ p.selectors, ∀ v,
      outcome ((ofFamilies families').encoderFor s' p chain) v =
        outcome ((ofFamilies families).encoderFor s p chain) v := by
    intro chain hmem v
    rw [outcome_encoderFor, outcome_encoderFor, hsettings chain hmem]
    cases hs : s.chains.get? chain with
    | none => rfl
    | some settings => simp only [hfamilies chain hmem settings hs]
  rw [outcome_encodersFor, outcome_encodersFor, outcome_mapM_congr hchain]

/-- Families are registered one after the other, and then the encoders of a proposal are made through
the settings. They come with exactly the chains of the proposal as keys, each made by the latest
family of the name that the settings give for the chain, and a ceremony that starts with them lacks
none. If they do not come, it is for the first chain that is not served. What the settings say of
other chains, and families of other names, have no part in it. -/
theorem encoders_come_from_latest_families (families : List (Family σ)) (s : Settings)
    (p : Proposal) :
    (∀ w m w', outcome ((ofFamilies families).encodersFor p s) w = (.ok m, w') ↔
      m.keys = p.selectors ∧
        Along (fun chain v v' => ∃ e, m.get? chain = some e ∧ Serves families s p chain v e v')
          p.selectors w w') ∧
    (∀ w fault w', outcome ((ofFamilies families).encodersFor p s) w = (.error fault, w') ↔
      ∃ before chain after v, p.selectors = before ++ chain :: after ∧
        Along (fun chain v v' => ∃ e, Serves families s p chain v e v') before w v ∧
        Refuses families s p chain v fault w') ∧
    (∀ w m w', outcome ((ofFamilies families).encodersFor p s) w = (.ok m, w') → ∀ chain,
      (Ceremony.start p m : Except Error (Ceremony σ)) ≠ .error (.noEncoder chain)) ∧
    ∀ families' s', (∀ chain ∈ p.selectors, s'.chains.get? chain = s.chains.get? chain) →
      (∀ chain ∈ p.selectors, ∀ settings, s.chains.get? chain = some settings →
        latest? families' settings.family = latest? families settings.family) →
      ∀ w, outcome ((ofFamilies families').encodersFor p s') w =
        outcome ((ofFamilies families).encodersFor p s) w := by
  refine ⟨fun w m w' => outcome_encodersFor_eq_ok, fun w fault w' => outcome_encodersFor_eq_error,
    fun w m w' h chain => ?_, fun families' s' => outcome_encodersFor_congr⟩
  exact Ceremony.start_ne_noEncoder (outcome_encodersFor_eq_ok.1 h).1

/-- Of two families with one name the later one serves both chains. -/
theorem later_family_serves : ∃ m : Encoders,
    outcome ((ofFamilies [Sample.family "evm" Sample.blind, Sample.family "sui" Sample.blind,
      Sample.family "evm" Sample.telling]).encodersFor Sample.proposal
        ⟨Sample.proposal.chains.map fun _ _ => .ofFamily "evm" ""⟩) () = (.ok m, ()) ∧
      m.get? Sample.one = some Sample.telling ∧ m.get? Sample.two = some Sample.telling := by
  obtain ⟨hserved, _⟩ := encoders_come_from_latest_families
    [Sample.family "evm" Sample.blind, Sample.family "sui" Sample.blind,
      Sample.family "evm" Sample.telling]
    ⟨Sample.proposal.chains.map fun _ _ => .ofFamily "evm" ""⟩ Sample.proposal
  refine ⟨Sample.proposal.chains.map fun _ _ => Sample.telling, (hserved _ _ _).2 ⟨rfl, ?_⟩, rfl,
    rfl⟩
  exact ⟨(), ⟨_, rfl, _, _, rfl, rfl, rfl⟩, (), ⟨_, rfl, _, _, rfl, rfl, rfl⟩, rfl⟩

end Registry

end Quorate
