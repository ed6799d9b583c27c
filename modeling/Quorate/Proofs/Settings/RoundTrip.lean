/-
Settings in TOML. What is written of settings is read as the same settings, whatever characters the
names and families are made of; and what has been read can be written, since a document has no
integers beyond those that settings can hold.
-/
import Quorate.Proofs.Options
import Quorate.Proofs.Outcome
import Quorate.Proofs.Settings.Keys
import Quorate.Proofs.Table
import Quorate.Proofs.Toml.Integers
import Quorate.Proofs.Toml.Lines
import Quorate.Settings.Document

namespace Quorate.Settings

open Toml

/-! ## Statements of a chain -/

/-- What is written of a chain, by name. -/
def fields (s : ChainSettings) : List (String × Value) :=
  ("family", .text s.family) :: ("name", .text s.name) ::
    (s.evmChainId.map fun n => ("evm_chain_id", .integer n.toNat)).toList

/-- The statements that are written of a chain. -/
def statementsOf (e : String × ChainSettings) : List Statement :=
  .header ["chains"] e.1 :: (fields e.2).map fun f => .assignment [] f.1 f.2

theorem statements_setting {name : String} {word rest : List Char} {v : Value}
    (hname : Bare name.toList) (hword : ∃ c t, word = c :: t ∧ isBlank c = false)
    (hvalue : value nestingLimit (word ++ '\n' :: rest) = some (v, '\n' :: rest)) :
    statements (setting name word ++ rest) = (.assignment [] name v :: ·) <$> statements rest := by
  have hline := statements_assignment hname hword hvalue
  rw [String.ofList_toList] at hline
  simpa [setting] using hline

theorem statements_setting_text {name : String} (hname : Bare name.toList) (s : String)
    (rest : List Char) : statements (setting name (writeText s) ++ rest) =
      (.assignment [] name (.text s) :: ·) <$> statements rest := by
  refine statements_setting hname ?_ (value_writeText _ s rest)
  obtain ⟨q, t, hq, rfl | rfl⟩ := exists_head_writeText s
  · exact ⟨_, t, hq, rfl⟩
  · exact ⟨_, t, hq, rfl⟩

/-- The lines of a chain are its statements. -/
theorem statements_chainLines {e : String × ChainSettings} (hkey : Bare e.1.toList)
    (hwritable : writable e.2 = true) (rest : List Char) :
    statements (chainLines e ++ rest) = (statementsOf e ++ ·) <$> statements rest := by
  obtain ⟨key, family, name, evmChainId⟩ := e
  have hnumber : statements (evmChainId.elim [] (fun n =>
      setting "evm_chain_id" (Nat.toDigits 10 n.toNat)) ++ rest) =
      ((evmChainId.map fun n => Statement.assignment [] "evm_chain_id" (.integer n.toNat)).toList ++ ·)
        <$> statements rest := by
    cases evmChainId with
    | none => simp
    | some n =>
      have hn : n.toNat < 0x8000000000000000 := by simpa [writable] using hwritable
      exact statements_setting (bare_of_all rfl) (bare_digits _).head (value_digits _ hn rest)
  have hchains : Bare "chains".toList := bare_of_all rfl
  have hlines : chainLines (key, ⟨family, name, evmChainId⟩) ++ rest =
      '[' :: ("chains".toList ++ '.' :: (key.toList ++ ']' :: '\n' ::
        (setting "family" (writeText family) ++ (setting "name" (writeText name) ++
          (evmChainId.elim [] (fun n => setting "evm_chain_id" (Nat.toDigits 10 n.toNat)) ++
            rest))))) := by
    have hopening : "[chains.".toList = '[' :: ("chains".toList ++ ['.']) := rfl
    unfold chainLines
    rw [hopening]
    generalize "chains".toList = outer
    simp only [List.append_assoc, List.cons_append, List.nil_append]
  rw [hlines, statements_header (ne_bracket_cons hchains _) (key_pair hchains hkey _) (by simp; omega),
    statements_setting_text (bare_of_all rfl), statements_setting_text (bare_of_all rfl),
    hnumber]
  simp only [String.ofList_toList]
  cases evmChainId <;> cases statements rest <;> rfl

/-- A document has the statements of its chains. -/
theorem statements_intercalate : ∀ {es : List (String × ChainSettings)},
    (∀ e ∈ es, Bare e.1.toList ∧ writable e.2 = true) →
      statements (['\n'].intercalate (es.map chainLines)) = some (es.flatMap statementsOf)
  | [], _ => statements_nil
  | [e], h => by
    obtain ⟨hbare, hwritable⟩ := h e (List.mem_cons_self ..)
    have hlines := statements_chainLines hbare hwritable []
    simpa [statements_nil] using hlines
  | e :: e' :: es, h => by
    obtain ⟨⟨hbare, hwritable⟩, hes⟩ := List.forall_mem_cons.1 h
    rw [List.map_cons, List.map_cons, List.intercalate_cons_cons, List.append_assoc,
      statements_chainLines hbare hwritable, List.singleton_append, statements_blank,
      ← List.map_cons, statements_intercalate hes]
    rfl

/-! ## The table of chains -/

/-- The table of a document in the making: the tables of the chains under a name that was passed
through. -/
def rootOf (chains : Section) : Section :=
  if chains.isEmpty then [] else [("chains", .table .implied chains)]

/-- A table with a header, and its entries. -/
def chainTable (key : String) (fs : List (String × Value)) : String × Item :=
  (key, .table .stated (fs.map fun f => (f.1, .value f.2)))

theorem lookup_eq_none {α : Type} {l : List (String × α)} {k : String} :
    l.lookup k = none ↔ k ∉ l.map (·.1) := by
  rw [List.lookup_eq_none_iff, List.mem_map]
  simp only [bne_iff_ne, not_exists, not_and]
  exact forall_congr' fun e => forall_congr' fun _ => ne_comm

theorem rootOf_append (chains : Section) (e : String × Item) :
    rootOf (chains ++ [e]) = [("chains", .table .implied (chains ++ [e]))] := by
  simp [rootOf]

theorem lookup_append_self {chains : Section} {key : String} (h : chains.lookup key = none)
    (item : Item) : List.lookup key (chains ++ [(key, item)]) = some item := by
  rw [List.lookup_append, h]
  simp

theorem put_append_self {chains : Section} {key : String} (h : chains.lookup key = none)
    (item item' : Item) :
    Section.put key item' (chains ++ [(key, item)]) = chains ++ [(key, item')] := by
  induction chains with
  | nil => simp [Section.put]
  | cons e chains ih =>
    rw [List.lookup_cons] at h
    split at h
    · cases h
    · rename_i hne
      have hkey : e.1 ≠ key := fun heq => by simp [heq] at hne
      simp [Section.put, hkey, ih h]

theorem after?_header {chains : Section} {key : String} (hkey : chains.lookup key = none)
    (current : List String) :
    Assembly.after? ⟨rootOf chains, current⟩ (.header ["chains"] key) =
      some ⟨rootOf (chains ++ [chainTable key []]), ["chains", key]⟩ := by
  rw [rootOf_append]
  cases chains with
  | nil => rfl
  | cons e chains =>
    simp [Assembly.after?, rootOf, Section.alter, Section.openTable, hkey, Section.put, chainTable]

theorem after?_assignment {chains : Section} {key : String} (hkey : chains.lookup key = none)
    {fs : List (String × Value)} {name : String} (hname : fs.lookup name = none) (v : Value) :
    Assembly.after? ⟨rootOf (chains ++ [chainTable key fs]), ["chains", key]⟩
        (.assignment [] name v) =
      some ⟨rootOf (chains ++ [chainTable key (fs ++ [(name, v)])]), ["chains", key]⟩ := by
  have hnew : List.lookup name (fs.map fun f => (f.1, Item.value f.2)) = none := by
    rw [lookup_eq_none] at hname ⊢
    rwa [List.map_map]
  rw [rootOf_append, rootOf_append]
  simp [Assembly.after?, Section.alter, Section.assign, Section.setNew, Section.put, chainTable,
    lookup_append_self hkey, put_append_self hkey, hnew]

theorem foldlM_assignments {chains : Section} {key : String} (hkey : chains.lookup key = none) :
    ∀ (fs gs : List (String × Value)), ((fs ++ gs).map (·.1)).Nodup →
      (gs.map fun f => Statement.assignment [] f.1 f.2).foldlM Assembly.after?
          ⟨rootOf (chains ++ [chainTable key fs]), ["chains", key]⟩ =
        some ⟨rootOf (chains ++ [chainTable key (fs ++ gs)]), ["chains", key]⟩
  | fs, [], _ => by simp
  | fs, g :: gs, h => by
    have hname : fs.lookup g.1 = none := by
      rw [List.map_append, List.map_cons] at h
      exact lookup_eq_none.2 fun hmem => (List.nodup_append.1 h).2.2 _ hmem _ (List.mem_cons_self ..) rfl
    rw [List.map_cons, List.foldlM_cons, after?_assignment hkey hname]
    have ih := foldlM_assignments hkey (fs ++ [g]) gs (by simpa using h)
    simpa using ih

theorem nodup_fields (s : ChainSettings) : ((fields s).map (·.1)).Nodup := by
  cases h : s.evmChainId <;> simp [fields, h]

/-- The statements of a chain make its table. -/
theorem foldlM_statementsOf {chains : Section} {e : String × ChainSettings}
    (hkey : chains.lookup e.1 = none) (current : List String) :
    (statementsOf e).foldlM Assembly.after? ⟨rootOf chains, current⟩ =
      some ⟨rootOf (chains ++ [chainTable e.1 (fields e.2)]), ["chains", e.1]⟩ := by
  rw [statementsOf, List.foldlM_cons, after?_header hkey]
  exact foldlM_assignments hkey [] _ (nodup_fields e.2)

/-- The statements of chains under different keys make the tables of all of them. -/
theorem foldlM_chains : ∀ (es : List (String × ChainSettings)) (chains : Section)
    (current : List String), (chains.map (·.1) ++ es.map (·.1)).Nodup →
      ∃ current', (es.flatMap statementsOf).foldlM Assembly.after? ⟨rootOf chains, current⟩ =
        some ⟨rootOf (chains ++ es.map fun e => chainTable e.1 (fields e.2)), current'⟩
  | [], chains, current, _ => ⟨current, by simp⟩
  | e :: es, chains, current, h => by
    have hkey : chains.lookup e.1 = none := by
      rw [List.map_cons] at h
      exact lookup_eq_none.2 fun hmem => (List.nodup_append.1 h).2.2 _ hmem _ (List.mem_cons_self ..) rfl
    obtain ⟨current', ih⟩ := foldlM_chains es (chains ++ [chainTable e.1 (fields e.2)])
      ["chains", e.1] (by simpa [chainTable] using h)
    refine ⟨current', ?_⟩
    rw [List.flatMap_cons, List.foldlM_append, foldlM_statementsOf hkey]
    simpa using ih

/-! ## Reading back -/

theorem entryValues_map {α : Type} (name : α → String) (item : α → Item) (l : List α) :
    entryValues (l.map fun a => (name a, item a)) = l.map fun a => (name a, (item a).toValue) := by
  induction l with
  | nil => rfl
  | cons a l ih => rw [List.map_cons, entryValues, ih, List.map_cons]

theorem ofValue?_fields {s : ChainSettings} (h : writable s = true) :
    ChainSettings.ofValue? (.table (fields s)) = some s := by
  obtain ⟨family, name, evmChainId⟩ := s
  cases evmChainId with
  | none => rfl
  | some n =>
    have hchainId : ChainSettings.chainId? (.integer n.toNat) = some n := by
      simp [ChainSettings.chainId?]
    simp [ChainSettings.ofValue?, fields, List.lookup_cons, ChainSettings.ofParts?,
      ChainSettings.text?, hchainId]

/-- A document of chains starts with a header, and not with a mark. -/
theorem dropMark_lines (e : String × ChainSettings) (es : List (String × ChainSettings)) :
    dropMark (['\n'].intercalate ((e :: es).map chainLines)) =
      ['\n'].intercalate ((e :: es).map chainLines) := by
  have hhead : ∃ t, ['\n'].intercalate ((e :: es).map chainLines) = '[' :: t := by
    cases es with
    | nil => exact ⟨_, rfl⟩
    | cons e' es => exact ⟨_, rfl⟩
  obtain ⟨t, ht⟩ := hhead
  rw [ht]
  rfl

theorem parse?_lines {es : List (String × ChainSettings)} (hne : es ≠ [])
    (hkeys : (es.map (·.1)).Nodup) (hlines : ∀ e ∈ es, Bare e.1.toList ∧ writable e.2 = true) :
    parse? (String.ofList (['\n'].intercalate (es.map chainLines))) =
      some [("chains", .table (es.map fun e => (e.1, .table (fields e.2))))] := by
  obtain ⟨current, hfold⟩ := foldlM_chains es [] [] hkeys
  have hroot : entryValues (rootOf (es.map fun e => chainTable e.1 (fields e.2))) =
      [("chains", .table (es.map fun e => (e.1, .table (fields e.2))))] := by
    have hfields : ∀ fs : List (String × Value),
        entryValues (fs.map fun f => (f.1, Item.value f.2)) = fs := fun fs => by
      rw [entryValues_map]
      simp [Item.toValue]
    simp only [rootOf, chainTable, List.isEmpty_iff, List.map_eq_nil_iff, hne, if_false,
      entryValues, Item.toValue, entryValues_map, hfields]
  have hstatements : ofStatements? (es.flatMap statementsOf) =
      some [("chains", .table (es.map fun e => (e.1, .table (fields e.2))))] := by
    have hfold : (es.flatMap statementsOf).foldlM Assembly.after? ⟨[], []⟩ = some ⟨_, current⟩ :=
      hfold
    rw [ofStatements?, hfold, ← hroot]
    rfl
  obtain ⟨e, es, rfl⟩ := List.exists_cons_of_ne_nil hne
  unfold parse?
  rw [String.toList_ofList, dropMark_lines, statements_intercalate hlines, Option.bind_eq_bind,
    Option.bind_some, hstatements]

theorem byText_perm (s : Settings) :
    s.byText.entries.Perm (s.chains.entries.map fun e => (toString e.1, e.2)) := by
  apply Table.entries_ofList_perm
  rw [List.map_map]
  have hinj := List.Nodup.map (f := fun chain : Selector => toString chain)
    (fun _ _ h => Selector.toString_injective h) s.chains.nodup_keys
  rwa [Table.keys, List.map_map] at hinj

/-- Whether no chain has a blank family. -/
def Named (s : Settings) : Prop := ∀ e ∈ s.chains.entries, Text.allBlank e.2.family = false

/-- Whether the numbers of all chains fit into 64 bits with a sign. -/
def Fits (s : Settings) : Prop :=
  ∀ e ∈ s.chains.entries, ∀ n, e.2.evmChainId = some n → n.toNat ≤ 0x7fffffffffffffff

theorem writable_iff {s : ChainSettings} :
    writable s = true ↔ ∀ n, s.evmChainId = some n → n.toNat ≤ 0x7fffffffffffffff := by
  unfold writable
  cases s.evmChainId with
  | none => simp
  | some n =>
    simp only [Option.all_some, decide_eq_true_eq, Option.some.injEq, forall_eq']
    omega

theorem all_writable_iff {s : Settings} : s.chains.values.all writable = true ↔ s.Fits := by
  simp only [List.all_eq_true, Table.values, List.forall_mem_map, writable_iff, Fits]

/-- Settings are written exactly when their numbers fit. -/
theorem exists_toToml_iff {s : Settings} : (∃ t, s.toToml = .ok t) ↔ s.Fits := by
  unfold toToml
  split
  · rename_i hempty
    refine iff_of_true ⟨_, rfl⟩ fun e he => ?_
    rw [Table.isEmpty, List.isEmpty_iff] at hempty
    rw [hempty] at he
    cases he
  · split
    · rename_i hwritable
      exact iff_of_true ⟨_, rfl⟩ (all_writable_iff.1 hwritable)
    · rename_i hwritable
      refine iff_of_false ?_ fun h => hwritable (all_writable_iff.2 h)
      rintro ⟨t, h⟩
      cases h

theorem parse?_empty : parse? "[chains]\n" = some [("chains", .table [])] := by
  have hchains : Bare "chains".toList := bare_of_all rfl
  have hdocument : dropMark "[chains]\n".toList = '[' :: ("chains".toList ++ [']', '\n']) := rfl
  unfold parse?
  rw [hdocument, statements_header (ne_bracket_cons hchains _) (key_single hchains _) (by simp),
    statements_nil]
  rfl

theorem entry_toString {e : Selector × ChainSettings} (h : Text.allBlank e.2.family = false) :
    entry (toString e.1, e.2) = .ok e := by
  refine entry_eq_ok.2 ⟨Selector.denotes_toString e.1, fun hblank => ?_, rfl⟩
  rw [Text.allBlank_iff.2 hblank] at h
  cases h

theorem mem_byText {s : Settings} {e : String × ChainSettings} (h : e ∈ s.byText.entries) :
    ∃ chain, (chain, e.2) ∈ s.chains.entries ∧ e.1 = toString chain := by
  obtain ⟨d, hd, rfl⟩ := List.mem_map.1 (s.byText_perm.mem_iff.1 h)
  exact ⟨d.1, hd, rfl⟩

/-- The entries by text give the settings back. -/
theorem ofEntries_byText {s : Settings} (hnamed : s.Named) : ofEntries s.byText = .ok s := by
  have hentries : (s.chains.entries.map fun e => (toString e.1, e.2)).mapM entry =
      .ok s.chains.entries := by
    rw [mapM_eq_ok, List.forall₂_map_left_iff, List.forall₂_same]
    exact fun e he => entry_toString (hnamed e he)
  obtain ⟨es, hes, hperm⟩ := mapM_perm s.byText_perm.symm hentries
  have hchains : Table.ofList es = s.chains := by
    rw [← Table.ofList_eq_of_perm s.chains.nodup_keys hperm, Table.ofList_entries]
  exact ofEntries_eq_ok.2 ⟨es, hes, congrArg Settings.mk hchains⟩

/-- What is written of settings is read as them. -/
theorem ofToml_of_toToml {s : Settings} {t : String} (hnamed : s.Named) (h : s.toToml = .ok t) :
    ofToml t = .ok s := by
  unfold toToml at h
  split at h
  · rename_i hempty
    cases h
    have hs : s = empty := congrArg Settings.mk (Table.ext (List.isEmpty_iff.1 hempty))
    subst hs
    unfold ofToml
    rw [parse?_empty]
    rfl
  split at h
  · rename_i hempty hwritable
    cases h
    have hne : s.byText.entries ≠ [] := by
      intro hnil
      have hperm := s.byText_perm
      rw [hnil, List.nil_perm, List.map_eq_nil_iff] at hperm
      exact hempty (List.isEmpty_iff.2 hperm)
    have hlines : ∀ e ∈ s.byText.entries, Bare e.1.toList ∧ writable e.2 = true := by
      intro e he
      obtain ⟨chain, hchain, hkey⟩ := mem_byText he
      rw [hkey, Selector.toList_toString]
      exact ⟨bare_digits _, writable_iff.2 (all_writable_iff.1 hwritable _ hchain)⟩
    have hread : entries? [("chains", .table (s.byText.entries.map fun e =>
        (e.1, .table (fields e.2))))] = some s.byText := by
      have hvalues : (s.byText.entries.map fun e => (e.1, Value.table (fields e.2))).mapM
          (fun e => (fun c => (e.1, c)) <$> ChainSettings.ofValue? e.2) = some s.byText.entries :=
        mapM_map_eq_some fun e he => by rw [ofValue?_fields (hlines e he).2]; rfl
      show Table.ofList <$> List.mapM _ _ = _
      rw [hvalues, Option.map_eq_map, Option.map_some, Table.ofList_entries]
    unfold ofToml
    rw [parse?_lines hne s.byText.nodup_keys hlines, Option.bind_eq_bind, Option.bind_some, hread]
    exact ofEntries_byText hnamed
  · cases h

/-! ## What has been read -/

theorem chainId_le {family name chainId : Option Value} {s : ChainSettings}
    (hfits : ∀ v, chainId = some v → v.Fits) (h : ChainSettings.ofParts? family name chainId = some s)
    {n : UInt64} (hn : s.evmChainId = some n) : n.toNat ≤ 0x7fffffffffffffff := by
  simp only [ChainSettings.ofParts?, Option.bind_eq_bind, Option.bind_eq_some_iff,
    Option.some.injEq] at h
  obtain ⟨_, _, _, _, number, hnumber, rfl⟩ := h
  obtain rfl : number = some n := hn
  cases chainId with
  | none => cases hnumber
  | some v =>
    obtain ⟨m, hm, heq⟩ := Option.map_eq_some_iff.1 hnumber
    cases heq
    cases hfits v rfl with
    | integer hi =>
      rename_i i
      simp only [ChainSettings.chainId?] at hm
      split at hm
      · cases hm
        have hsmall : i.toNat < UInt64.size := by
          unfold UInt64.size
          omega
        rw [UInt64.toNat_ofNat_of_lt' hsmall]
        omega
      · cases hm
    | _ => cases hm

theorem evmChainId_le {v : Value} {s : ChainSettings} (hv : v.Fits)
    (h : ChainSettings.ofValue? v = some s) {n : UInt64} (hn : s.evmChainId = some n) :
    n.toNat ≤ 0x7fffffffffffffff := by
  unfold ChainSettings.ofValue? at h
  split at h
  · rename_i entries
    cases hv with
    | table hentries =>
      refine chainId_le (fun v hv => ?_) h hn
      obtain ⟨l, r, rfl, _⟩ := List.lookup_eq_some_iff.1 hv
      exact hentries ("evm_chain_id", v) (by simp)
  · rename_i items
    cases hv with
    | array hitems => exact chainId_le (fun v hv => hitems v (List.mem_of_getElem? hv)) h hn
  · exact chainId_le (by simp) h hn
  · cases h

theorem evmChainId_le_of_entries? {t : String} {root : List (String × Value)}
    {texts : Table String ChainSettings} (hroot : parse? t = some root)
    (htexts : entries? root = some texts) (e : String × ChainSettings) (he : e ∈ texts.entries)
    {n : UInt64} (hn : e.2.evmChainId = some n) : n.toNat ≤ 0x7fffffffffffffff := by
  unfold entries? at htexts
  split at htexts
  · cases htexts
    cases he
  · rename_i entries hchains
    obtain ⟨l, hl, rfl⟩ := Option.map_eq_some_iff.1 htexts
    obtain ⟨d, hd, hvalue⟩ := exists_of_mapM_eq_some hl (Table.mem_of_mem_ofList he)
    obtain ⟨c, hc, heq⟩ := Option.map_eq_some_iff.1 hvalue
    obtain ⟨-, rfl⟩ := Prod.mk.inj heq
    have hfits : (Value.table entries).Fits := by
      obtain ⟨before, after, rfl, _⟩ := List.lookup_eq_some_iff.1 hchains
      exact fits_parse? hroot ("chains", .table entries) (by simp)
    cases hfits with
    | table hentries => exact evmChainId_le (hentries d hd) hc hn
  · cases htexts

/-- Settings that are read have families, and numbers that fit. -/
theorem named_of_ofToml {t : String} {s : Settings} (h : ofToml t = .ok s) : s.Named ∧ s.Fits := by
  unfold ofToml at h
  split at h
  · rename_i texts htexts
    obtain ⟨root, hroot, htexts⟩ := Option.bind_eq_some_iff.1 htexts
    obtain ⟨es, hentries, rfl⟩ := ofEntries_eq_ok.1 h
    have hmem : ∀ e ∈ (Table.ofList es).entries, ∃ d ∈ texts.entries,
        d.2 = e.2 ∧ Text.allBlank e.2.family = false := by
      intro e he
      obtain ⟨⟨key, c⟩, hd, hentry⟩ := exists_of_mapM_eq_ok hentries (Table.mem_of_mem_ofList he)
      obtain ⟨_, hfamily, rfl⟩ := entry_eq_ok.1 hentry
      refine ⟨(key, e.2), hd, rfl, Bool.eq_false_iff.2 fun hblank => ?_⟩
      exact hfamily (Text.allBlank_iff.1 hblank)
    refine ⟨fun e he => ?_, fun e he n hn => ?_⟩
    · obtain ⟨_, _, _, hblank⟩ := hmem e he
      exact hblank
    · obtain ⟨d, hd, heq, _⟩ := hmem e he
      exact evmChainId_le_of_entries? hroot htexts d hd (heq ▸ hn)
  · cases h

/-- Settings whose chains all have families are written exactly when the numbers of the chains fit
into 64 bits with a sign, and what is written is read as the same settings. Settings that have been
read are of this kind. -/
theorem toml_round_trip :
    (∀ s : Settings, s.Named → ((∃ t, s.toToml = .ok t) ↔ s.Fits) ∧
      ∀ t, s.toToml = .ok t → ofToml t = .ok s) ∧
    ∀ t s, ofToml t = .ok s → ∃ u, s.toToml = .ok u ∧ ofToml u = .ok s := by
  refine ⟨fun s hnamed => ⟨exists_toToml_iff, fun t => ofToml_of_toToml hnamed⟩, fun t s h => ?_⟩
  obtain ⟨hnamed, hfits⟩ := named_of_ofToml h
  obtain ⟨u, hu⟩ := exists_toToml_iff.2 hfits
  exact ⟨u, hu, ofToml_of_toToml hnamed hu⟩

/-- Two chains whose keys are ordered the other way round than their numbers, with both kinds of
quotes and more than one line. -/
def quotedSample : Settings :=
  (empty.withChain ⟨9⟩ ⟨"it's", "\"\"\"\n'''\\", none⟩).withChain ⟨10⟩
    ⟨"a \"b\"", "", some 0x7fffffffffffffff⟩

def quotedText : String :=
  "[chains.10]\nfamily = 'a \"b\"'\nname = \"\"\nevm_chain_id = 9223372036854775807\n\n" ++
  "[chains.9]\nfamily = \"it's\"\nname = \"\"\"\n\"\"\\\"\n'''\\\\\"\"\"\n"

theorem toml_round_trip_quoted :
    quotedSample.Named ∧ quotedSample.toToml = .ok quotedText ∧
      ofToml quotedText = .ok quotedSample := by
  have hnamed : quotedSample.Named := by
    unfold Named
    decide
  have hwritten : quotedSample.toToml = .ok quotedText := by decide +kernel
  exact ⟨hnamed, hwritten, (toml_round_trip.1 quotedSample hnamed).2 quotedText hwritten⟩

end Quorate.Settings
