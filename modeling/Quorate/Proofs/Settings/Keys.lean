/-
Keys: in a document each entry of the table of chains has a text as its key. The table is read when
every text denotes a chain and no family is blank. Several texts may denote one chain, of which the
entry under the greatest counts. Otherwise the least text whose entry is flawed is reported, for
itself first and then for the family.
-/
import Quorate.Proofs.Digits
import Quorate.Proofs.Outcome
import Quorate.Proofs.Table
import Quorate.Settings.Document
import Mathlib.Data.List.DropRight
import Mathlib.Data.String.Basic
import Mathlib.Order.Compare

namespace Quorate

/-- Nothing is left of a text exactly if it is all blank. -/
theorem Text.allBlank_iff {s : String} : allBlank s = true ↔ trim s.toList = [] := by
  show s.toList.all isBlank = true ↔ (s.toList.dropWhile isBlank).rdropWhile isBlank = []
  rw [List.rdropWhile_eq_nil_iff, List.all_eq_true]
  conv_lhs => rw [← List.takeWhile_append_dropWhile (p := isBlank) (l := s.toList)]
  rw [List.forall_mem_append]
  exact and_iff_right fun c => List.mem_takeWhile_imp

/-- A text denotes one chain at most. -/
theorem Selector.Denotes.eq {s : String} {chain other : Selector} (h : Denotes s chain)
    (hother : Denotes s other) : chain = other :=
  Except.ok.inj ((parse_eq_ok.2 h).symm.trans (parse_eq_ok.2 hother))

namespace Settings

open Selector (Denotes)

variable {t : Table String ChainSettings} {s : Settings} {key : String} {c : ChainSettings}

/-! ## One entry -/

/-- What is amiss with an entry, in the order in which it is looked for. -/
inductive Flaw (key : String) (c : ChainSettings) : Fault → Prop
  | badKey : (∀ chain, ¬ Denotes key chain) → Flaw key c (.badKey key)
  | blankFamily {chain : Selector} : Denotes key chain → Text.trim c.family.toList = [] →
      Flaw key c (.blankFamily chain)

theorem entry_eq_ok {e : Selector × ChainSettings} : entry (key, c) = .ok e ↔
    Denotes key e.1 ∧ Text.trim c.family.toList ≠ [] ∧ c = e.2 := by
  obtain ⟨chain, d⟩ := e
  rw [← Selector.parse_eq_ok, Ne, ← Text.allBlank_iff]
  unfold entry
  cases Selector.parse key <;> cases Text.allBlank c.family <;> simp

theorem entry_eq_error {fault : Fault} : entry (key, c) = .error fault ↔ Flaw key c fault := by
  unfold entry
  cases hparse : Selector.parse key with
  | error e =>
    have hnone : ∀ chain, ¬ Denotes key chain := fun chain hchain => by
      rw [Selector.parse_eq_ok.2 hchain] at hparse
      cases hparse
    constructor
    · rintro ⟨⟩
      exact .badKey hnone
    · rintro (_ | hchain)
      · rfl
      · exact absurd hchain (hnone _)
  | ok chain =>
    have hchain := Selector.parse_eq_ok.1 hparse
    simp only [Text.allBlank_iff]
    split
    · rename_i hblank
      constructor
      · rintro ⟨⟩
        exact .blankFamily hchain hblank
      · rintro (hnone | ⟨hother, _⟩)
        · exact absurd hchain (hnone chain)
        · rw [hchain.eq hother]
    · rename_i hblank
      refine iff_of_false nofun ?_
      rintro (hnone | ⟨_, hblank'⟩)
      · exact hnone chain hchain
      · exact hblank hblank'

theorem exists_entry_iff : (∃ e, entry (key, c) = .ok e) ↔
    (∃ chain, Denotes key chain) ∧ Text.trim c.family.toList ≠ [] := by
  simp only [entry_eq_ok]
  constructor
  · rintro ⟨e, hchain, hfamily, _⟩
    exact ⟨⟨e.1, hchain⟩, hfamily⟩
  · rintro ⟨⟨chain, hchain⟩, hfamily⟩
    exact ⟨(chain, c), hchain, hfamily, rfl⟩

/-- An entry without flaws goes through. -/
theorem exists_entry_iff_flawless :
    (∃ e, entry (key, c) = .ok e) ↔ ∀ fault, ¬ Flaw key c fault := by
  simp only [← entry_eq_error]
  cases entry (key, c) <;> simp

/-! ## All entries -/

/-- The greatest of the texts in a table that denote a chain. -/
structure Greatest (t : Table String ChainSettings) (chain : Selector) (key : String) : Prop where
  mem : key ∈ t.keys
  denotes : Denotes key chain
  le : ∀ other ∈ t.keys, Denotes other chain → other ≤ key

theorem ofEntries_eq_ok : ofEntries t = .ok s ↔
    ∃ es, t.entries.mapM entry = .ok es ∧ ⟨Table.ofList es⟩ = s := by
  unfold ofEntries
  cases t.entries.mapM entry <;> simp [Functor.map, Except.map]

theorem exists_ofEntries_iff : (∃ s, ofEntries t = .ok s) ↔ ∀ key c, t.get? key = some c →
    (∃ chain, Denotes key chain) ∧ Text.trim c.family.toList ≠ [] := by
  have hall : (∃ es, t.entries.mapM entry = .ok es) ↔ ∀ key c, t.get? key = some c →
      (∃ chain, Denotes key chain) ∧ Text.trim c.family.toList ≠ [] := by
    simp only [exists_mapM_iff, Prod.forall, exists_entry_iff, Table.get?_eq_some]
  rw [← hall]
  constructor
  · rintro ⟨s, h⟩
    obtain ⟨es, hes, _⟩ := ofEntries_eq_ok.1 h
    exact ⟨es, hes⟩
  · rintro ⟨es, hes⟩
    exact ⟨⟨Table.ofList es⟩, ofEntries_eq_ok.2 ⟨es, hes, rfl⟩⟩

/-- Chains are read under the texts that denote them, and no others. -/
theorem mem_keys_ofEntries (h : ofEntries t = .ok s) {chain : Selector} :
    chain ∈ s.chains.keys ↔ ∃ key ∈ t.keys, Denotes key chain := by
  obtain ⟨es, hes, rfl⟩ := ofEntries_eq_ok.1 h
  rw [Table.mem_keys_ofList, List.mem_map]
  constructor
  · rintro ⟨e, he, rfl⟩
    obtain ⟨⟨key, c⟩, hmem, hentry⟩ := exists_of_mapM_eq_ok hes he
    exact ⟨key, Table.mem_keys.2 ⟨c, Table.get?_eq_some.2 hmem⟩, (entry_eq_ok.1 hentry).1⟩
  · rintro ⟨key, hkey, hchain⟩
    obtain ⟨c, hc⟩ := Table.mem_keys.1 hkey
    obtain ⟨e, he, hentry⟩ := mem_of_mapM_eq_ok hes (Table.get?_eq_some.1 hc)
    exact ⟨e, he, (entry_eq_ok.1 hentry).1.eq hchain⟩

/-- The entry of a chain that stays is the last one, and thus the one under the greatest text. -/
theorem greatest_of_get? (h : ofEntries t = .ok s) {chain : Selector}
    (hc : s.chains.get? chain = some c) : ∃ key, Greatest t chain key ∧ t.get? key = some c := by
  obtain ⟨es, hes, rfl⟩ := ofEntries_eq_ok.1 h
  rw [Table.get?_ofList_eq_lookup, List.lookup_eq_some_iff] at hc
  obtain ⟨behind, front, hsplit, hbehind⟩ := hc
  have hsplit : es = front.reverse ++ (chain, c) :: behind.reverse := by
    simpa using congrArg List.reverse hsplit
  obtain ⟨before, ⟨key, d⟩, after, hentries, _, hentry, hafter⟩ :=
    exists_split_of_mapM_eq_ok (hsplit ▸ hes)
  obtain ⟨hchain, _, rfl⟩ := entry_eq_ok.1 hentry
  have hget : t.get? key = some d := by
    rw [Table.get?_eq_some, hentries]
    exact List.mem_append_right before (List.mem_cons_self ..)
  refine ⟨key, ⟨Table.mem_keys.2 ⟨d, hget⟩, hchain, fun other hmem hother => ?_⟩, hget⟩
  obtain ⟨x, hx⟩ := Table.mem_keys.1 hmem
  rw [Table.get?_eq_some, hentries] at hx
  have hsorted := t.sorted
  rw [hentries, List.pairwise_append] at hsorted
  rcases List.mem_append.1 hx with hx | hx
  · exact (compare_lt_iff_lt.1 (hsorted.2.2 _ hx _ (List.mem_cons_self ..))).le
  rcases List.mem_cons.1 hx with hx | hx
  · exact (congrArg Prod.fst hx).le
  · -- what comes behind denotes other chains
    obtain ⟨e, he, hentry⟩ := mem_of_mapM_eq_ok hafter hx
    have hne := hbehind e (List.mem_reverse.1 he)
    rw [(entry_eq_ok.1 hentry).1.eq hother] at hne
    simp at hne

theorem get?_ofEntries (h : ofEntries t = .ok s) {chain : Selector} :
    s.chains.get? chain = some c ↔ ∃ key, Greatest t chain key ∧ t.get? key = some c := by
  refine ⟨greatest_of_get? h, ?_⟩
  rintro ⟨key, hkey, hc⟩
  obtain ⟨d, hd⟩ := Table.mem_keys.1 ((mem_keys_ofEntries h).2 ⟨key, hkey.mem, hkey.denotes⟩)
  obtain ⟨other, hother, hget⟩ := greatest_of_get? h hd
  obtain rfl : key = other :=
    le_antisymm (hother.le key hkey.mem hkey.denotes) (hkey.le other hother.mem hother.denotes)
  rw [hd, ← hget, hc]

theorem ofEntries_eq_error {fault : Fault} : ofEntries t = .error fault ↔
    ∃ key c, t.get? key = some c ∧
      (∀ lesser d, t.get? lesser = some d → lesser < key → ∀ fault', ¬ Flaw lesser d fault') ∧
      Flaw key c fault := by
  unfold ofEntries
  rw [map_eq_error, mapM_eq_error_of_ascending_key Prod.fst t.sorted]
  simp only [Prod.forall, exists_entry_iff_flawless]
  simp only [Prod.exists, compare_lt_iff_lt, entry_eq_error, Table.get?_eq_some]

/-! ## Documents -/

/-- The chains of a document are read exactly when every key, without the blanks around it, is the
numeral of a 64-bit number, and every family has something besides blanks. They are then the chains
that the keys denote, each with its settings under the greatest of its texts. Otherwise the least key
with a flaw is reported. -/
theorem greatest_text_counts_or_least_flaw_is_named {doc : String}
    (h : (Toml.parse? doc >>= entries?) = some t) :
    ((∃ s, ofToml doc = .ok s) ↔ ∀ key c, t.get? key = some c →
      (∃ chain, Denotes key chain) ∧ Text.trim c.family.toList ≠ []) ∧
    (∀ s, ofToml doc = .ok s →
      (∀ chain, chain ∈ s.chains.keys ↔ ∃ key ∈ t.keys, Denotes key chain) ∧
      ∀ chain c, s.chains.get? chain = some c ↔
        ∃ key, Greatest t chain key ∧ t.get? key = some c) ∧
    ∀ fault, ofToml doc = .error fault ↔ ∃ key c, t.get? key = some c ∧
      (∀ lesser d, t.get? lesser = some d → lesser < key → ∀ fault', ¬ Flaw lesser d fault') ∧
      Flaw key c fault := by
  have hread : ofToml doc = ofEntries t := by
    unfold ofToml
    rw [h]
  rw [hread]
  exact ⟨exists_ofEntries_iff,
    fun s hs => ⟨fun chain => mem_keys_ofEntries hs, fun chain c => get?_ofEntries hs⟩,
    fun fault => ofEntries_eq_error⟩

/-- Three texts denote one chain, and the greatest of them comes first. -/
def spelledText : String :=
  "[chains.1]\nname = \"plain\"\n[chains.01]\nname = \"zero\"\n" ++
  "[chains.\" 1\"]\nname = \"blank\"\n[chains.10]\n"

def spelledEntries : Table String ChainSettings :=
  Table.ofList [("1", ⟨"evm", "plain", none⟩), ("01", ⟨"evm", "zero", none⟩),
    (" 1", ⟨"evm", "blank", none⟩), ("10", ⟨"evm", "", none⟩)]

/-- Two chains have blank families, the greater of them under the lesser text. -/
def flawedText : String := "[chains.9]\nfamily = \"\"\n[chains.10]\nfamily = \" \"\n[chains.b]\n"

def flawedEntries : Table String ChainSettings :=
  Table.ofList [("9", ⟨"", "", none⟩), ("10", ⟨" ", "", none⟩), ("b", ⟨"evm", "", none⟩)]

theorem greatest_of_three_texts_counts_and_lesser_flaw_is_named :
    (∃ s, ofToml spelledText = .ok s ∧ s.chains.get? ⟨1⟩ = some ⟨"evm", "plain", none⟩) ∧
      ofToml flawedText = .error (.blankFamily ⟨10⟩) := by
  have hspelled : (Toml.parse? spelledText >>= entries?) = some spelledEntries := by decide +kernel
  have hflawed : (Toml.parse? flawedText >>= entries?) = some flawedEntries := by decide +kernel
  obtain ⟨hread, hchains, _⟩ := greatest_text_counts_or_least_flaw_is_named hspelled
  obtain ⟨_, _, hfault⟩ := greatest_text_counts_or_least_flaw_is_named hflawed
  constructor
  · obtain ⟨s, hs⟩ := hread.2 fun key c hc => by
      have hall : ∀ e ∈ spelledEntries.entries, (entry e).isOk = true := by decide +kernel
      have hok := hall (key, c) (Table.get?_eq_some.1 hc)
      rw [← exists_entry_iff]
      cases hentry : entry (key, c) with
      | error _ =>
        rw [hentry] at hok
        cases hok
      | ok e => exact ⟨e, rfl⟩
    refine ⟨s, hs, ((hchains s hs).2 ⟨1⟩ _).2 ⟨"1", ⟨by decide +kernel, ?_, ?_⟩, by decide +kernel⟩⟩
    · exact Selector.parse_eq_ok.1 (by decide +kernel)
    · simp only [← Selector.parse_eq_ok]
      decide +kernel
  · refine (hfault _).2 ⟨"10", _, (by decide +kernel : _ = some ⟨" ", "", none⟩), ?_, ?_⟩
    · intro lesser d hd hlt
      have hleast : ∀ key ∈ flawedEntries.keys, ¬ key < "10" := by decide +kernel
      exact absurd hlt (hleast lesser (Table.mem_keys.2 ⟨d, hd⟩))
    · exact .blankFamily (Selector.parse_eq_ok.1 (by decide +kernel)) (by decide +kernel)

end Settings

end Quorate
