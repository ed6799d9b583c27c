/-
The integers of TOML documents. A word is an integer only if it fits into 64 bits with a sign, and
on the way from words to the table of a document no other integers come up.
-/
import Quorate.Proofs.Options
import Quorate.Toml.Document
import Mathlib.Data.List.Basic

namespace Quorate.Toml

/-- Every integer in a value fits into 64 bits with a sign. -/
inductive Value.Fits : Value → Prop
  | text (s : String) : Fits (.text s)
  | integer {n : Int} : -0x8000000000000000 ≤ n ∧ n < 0x8000000000000000 → Fits (.integer n)
  | float (spelling : List Char) : Fits (.float spelling)
  | truth (b : Bool) : Fits (.truth b)
  | time (spelling : List Char) : Fits (.time spelling)
  | array {items : List Value} : (∀ v ∈ items, Fits v) → Fits (.array items)
  | table {entries : List (String × Value)} : (∀ e ∈ entries, Fits e.2) → Fits (.table entries)

/-- Every integer under a name fits. -/
inductive Item.Fits : Item → Prop
  | value {v : Value} : v.Fits → Fits (.value v)
  | table {origin : Origin} {entries : List (String × Item)} :
    (∀ e ∈ entries, Fits e.2) → Fits (.table origin entries)
  | tables {latest : List (String × Item)} {earlier : List (List (String × Item))} :
    (∀ e ∈ latest, Fits e.2) → (∀ t ∈ earlier, ∀ e ∈ t, Fits e.2) → Fits (.tables latest earlier)

/-- Every integer in a table in the making fits. -/
def Section.Fits (s : Section) : Prop := ∀ e ∈ s, e.2.Fits

/-- Every value that a reader gives fits. -/
def Reader.Fits (read : Reader Value) : Prop := ∀ ⦃cs v rest⦄, read cs = some (v, rest) → v.Fits

/-! ## Words -/

theorem fitting?_eq_some {n m : Int} (h : fitting? n = some m) :
    -0x8000000000000000 ≤ m ∧ m < 0x8000000000000000 := by
  unfold fitting? at h
  split at h
  · rename_i hn
    cases h
    exact hn
  · cases h

theorem integer?_eq_some {word : List Char} {n : Int} (h : integer? word = some n) :
    -0x8000000000000000 ≤ n ∧ n < 0x8000000000000000 := by
  unfold integer? at h
  split at h
  all_goals
    simp only [Option.bind_eq_bind, Option.bind_eq_some_iff] at h
    obtain ⟨_, _, h⟩ := h
    exact fitting?_eq_some h

theorem fits_scalar? {word : List Char} {v : Value} (h : scalar? word = some v) : v.Fits := by
  unfold scalar? at h
  split_ifs at h
  · cases h; exact .truth _
  · cases h; exact .truth _
  · cases h; exact .time _
  · cases h; exact .float _
  · obtain ⟨n, hn, rfl⟩ := Option.map_eq_some_iff.1 h
    exact .integer (integer?_eq_some hn)

theorem fits_scalar : Reader.Fits scalar := by
  intro cs v rest h
  unfold scalar at h
  dsimp only at h
  split_ifs at h
  · cases h
    exact .time _
  · obtain ⟨v, hv, heq⟩ := Option.map_eq_some_iff.1 h
    cases heq
    exact fits_scalar? hv

/-! ## Tables in the making -/

namespace Section

theorem Fits.lookup {s : Section} (h : s.Fits) {name : String} {item : Item}
    (hname : s.lookup name = some item) : item.Fits := by
  obtain ⟨l, r, rfl, _⟩ := List.lookup_eq_some_iff.1 hname
  exact h (name, item) (by simp)

theorem Fits.append {s : Section} (h : s.Fits) (name : String) {item : Item} (hitem : item.Fits) :
    Section.Fits (s ++ [(name, item)]) := by
  intro e he
  rcases List.mem_append.1 he with he | he
  · exact h e he
  · obtain rfl := List.mem_singleton.1 he
    exact hitem

theorem Fits.put {s : Section} (h : s.Fits) (name : String) {item : Item} (hitem : item.Fits) :
    Section.Fits (s.put name item) := by
  induction s with
  | nil => simpa [Section.put, Section.Fits] using hitem
  | cons d s ih =>
    obtain ⟨hd, hs⟩ := List.forall_mem_cons.1 h
    unfold Section.put
    split
    · exact List.forall_mem_cons.2 ⟨hitem, hs⟩
    · exact List.forall_mem_cons.2 ⟨hd, ih hs⟩

/-- A change that keeps integers fitting does so at the end of a path. -/
theorem Fits.alter {made : Origin} {change : Origin → Section → Option Section}
    (hchange : ∀ origin s s', Section.Fits s → change origin s = some s' → Section.Fits s') :
    ∀ {path : List String} {origin : Origin} {s s' : Section}, s.Fits →
      Section.alter made change path origin s = some s' → Section.Fits s'
  | [], origin, s, s', hs, h => hchange origin s s' hs h
  | n :: path, _, s, s', hs, h => by
    unfold Section.alter at h
    split at h
    · obtain ⟨t, ht, rfl⟩ := Option.map_eq_some_iff.1 h
      exact hs.put n (.table (Fits.alter hchange (s := []) (by simp [Section.Fits]) ht))
    · cases h
    · rename_i origin t hn
      split at h
      · cases h
      obtain ⟨t', ht, rfl⟩ := Option.map_eq_some_iff.1 h
      obtain ⟨⟩ | hfits := hs.lookup hn
      exact hs.put n (.table (Fits.alter hchange hfits ht))
    · rename_i latest earlier hn
      obtain ⟨t', ht, rfl⟩ := Option.map_eq_some_iff.1 h
      cases hs.lookup hn with
      | tables hlatest hearlier =>
        exact hs.put n (.tables (Fits.alter hchange hlatest ht) hearlier)

theorem Fits.setNew {s s' : Section} (hs : s.Fits) {name : String} {item : Item}
    (hitem : item.Fits) (h : s.setNew name item = some s') : s'.Fits := by
  unfold Section.setNew at h
  split at h
  · cases h
  · cases h
    exact hs.append name hitem

theorem Fits.assign {s s' : Section} (hs : s.Fits) {path : List String} {name : String} {v : Value}
    (hv : v.Fits) (h : s.assign path name v = some s') : s'.Fits := by
  unfold Section.assign at h
  split at h
  · exact hs.setNew (.value hv) h
  · refine Fits.alter (fun origin t t' ht h => ?_) hs h
    split at h
    · exact Fits.setNew ht (.value hv) h
    · cases h

theorem Fits.openTable {s s' : Section} (hs : s.Fits) {name : String}
    (h : s.openTable name = some s') : s'.Fits := by
  unfold Section.openTable at h
  split at h
  · cases h
    exact hs.append name (.table (by simp))
  · rename_i t hn
    cases h
    cases hs.lookup hn with
    | table ht => exact hs.put name (.table ht)
  · cases h

theorem Fits.openElement {s s' : Section} (hs : s.Fits) {name : String}
    (h : s.openElement name = some s') : s'.Fits := by
  unfold Section.openElement at h
  split at h
  · cases h
    exact hs.append name (.tables (by simp) (by simp))
  · rename_i latest earlier hn
    cases h
    cases hs.lookup hn with
    | tables hlatest hearlier =>
      exact hs.put name (.tables (by simp) (List.forall_mem_cons.2 ⟨hlatest, hearlier⟩))
  · cases h

end Section

mutual

theorem Item.Fits.toValue : ∀ {item : Item}, item.Fits → item.toValue.Fits
  | .value _, .value h => h
  | .table _ _, .table h => .table (Section.Fits.entryValues h)
  | .tables _ _, .tables hlatest hearlier => by
    refine .array (fits_tableValues hearlier ?_)
    simpa using .table (Section.Fits.entryValues hlatest)

theorem Section.Fits.entryValues : ∀ {s : List (String × Item)}, (∀ e ∈ s, e.2.Fits) →
    ∀ e ∈ Toml.entryValues s, e.2.Fits
  | [], _ => by simp [Toml.entryValues]
  | (n, item) :: rest, h => by
    obtain ⟨hitem, hrest⟩ := List.forall_mem_cons.1 h
    exact List.forall_mem_cons.2 ⟨hitem.toValue, Section.Fits.entryValues hrest⟩

theorem fits_tableValues : ∀ {earlier : List (List (String × Item))} {later : List Value},
    (∀ t ∈ earlier, ∀ e ∈ t, e.2.Fits) → (∀ v ∈ later, v.Fits) →
      ∀ v ∈ tableValues earlier later, v.Fits
  | [], _, _, hlater => hlater
  | t :: earlier, later, h, hlater => by
    obtain ⟨ht, hearlier⟩ := List.forall_mem_cons.1 h
    rw [tableValues]
    exact fits_tableValues hearlier
      (List.forall_mem_cons.2 ⟨.table (Section.Fits.entryValues ht), hlater⟩)

end

theorem fits_inlineTable? {ms : List (List String × String × Value)} {v : Value}
    (hms : ∀ m ∈ ms, m.2.2.Fits) (h : inlineTable? ms = some v) : v.Fits := by
  obtain ⟨s, hs, h⟩ := Option.bind_eq_some_iff.1 h
  cases h
  have hfits : Section.Fits s :=
    foldlM_keeps (fun m hm _ _ hs h => hs.assign (hms m hm) h) (List.forall_mem_nil _) hs
  exact .table (Section.Fits.entryValues hfits)

/-! ## Readers -/

section Readers

variable {read : Reader Value} (hread : read.Fits)
include hread

theorem fits_items {cs rest : List Char} {vs : List Value}
    (h : items read cs = some (vs, rest)) : ∀ v ∈ vs, v.Fits := by
  fun_induction items read cs generalizing vs rest with
  | case1 | case3 | case6 | case7 => cases h
  | case2 =>
    cases h
    simp
  | case4 _ _ _ _ v _ hv =>
    cases h
    simpa using hread hv
  | case5 _ _ _ _ v _ hv _ _ _ ih =>
    obtain ⟨r, hr, heq⟩ := Option.map_eq_some_iff.1 h
    cases heq
    exact List.forall_mem_cons.2 ⟨hread hv, ih hr⟩

theorem fits_assignment {cs rest : List Char} {m : List String × String × Value}
    (h : assignment read cs = some (m, rest)) : m.2.2.Fits := by
  unfold assignment at h
  split at h
  · obtain ⟨r, hr, heq⟩ := Option.map_eq_some_iff.1 h
    cases heq
    exact hread hr
  · cases h

theorem fits_members {cs rest : List Char} {ms : List (List String × String × Value)}
    (h : members read cs = some (ms, rest)) : ∀ m ∈ ms, m.2.2.Fits := by
  fun_induction members read cs generalizing ms rest with
  | case1 | case4 | case5 => cases h
  | case2 _ m _ hm =>
    cases h
    simpa using fits_assignment hread hm
  | case3 _ m _ hm _ _ _ ih =>
    obtain ⟨r, hr, heq⟩ := Option.map_eq_some_iff.1 h
    cases heq
    exact List.forall_mem_cons.2 ⟨fits_assignment hread hm, ih hr⟩

end Readers

theorem fits_value (depth : Nat) : Reader.Fits (value depth) := by
  induction depth using Nat.strongRecOn with
  | _ depth ih =>
    intro cs v rest h
    unfold value at h
    split at h
    · obtain ⟨r, _, heq⟩ := Option.map_eq_some_iff.1 h
      cases heq
      exact .text _
    · obtain ⟨r, _, heq⟩ := Option.map_eq_some_iff.1 h
      cases heq
      exact .text _
    · obtain ⟨r, hr, heq⟩ := Option.map_eq_some_iff.1 h
      cases heq
      exact .array (fits_items (ih _ (Nat.lt_succ_self _)) hr)
    · split at h
      · cases h
        exact .table (by simp)
      · obtain ⟨⟨ms, after⟩, hms, h⟩ := Option.bind_eq_some_iff.1 h
        obtain ⟨t, ht, heq⟩ := Option.bind_eq_some_iff.1 h
        cases heq
        exact fits_inlineTable? (fits_members (ih _ (Nat.lt_succ_self _)) hms) ht
    · exact fits_scalar h

/-! ## Documents -/

/-- Every integer of a statement fits. -/
def Statement.Fits : Statement → Prop
  | .assignment _ _ v => v.Fits
  | _ => True

theorem fits_statement {cs rest : List Char} {s : Statement} (h : statement cs = some (s, rest)) :
    s.Fits := by
  unfold statement at h
  split at h
  all_goals
    obtain ⟨r, hr, heq⟩ := Option.map_eq_some_iff.1 h
    cases heq
  · trivial
  · trivial
  · exact fits_assignment (fits_value _) hr

theorem fits_statements {cs : List Char} {ss : List Statement} (h : statements cs = some ss) :
    ∀ s ∈ ss, s.Fits := by
  fun_induction statements cs generalizing ss with
  | case1 =>
    cases h
    simp
  | case2 | case4 | case5 | case6 | case8 => cases h
  | case3 _ _ _ _ _ _ ih => exact ih h
  | case7 _ _ _ _ _ _ _ _ hs ih =>
    obtain ⟨r, hr, rfl⟩ := Option.map_eq_some_iff.1 h
    exact List.forall_mem_cons.2 ⟨fits_statement hs, ih hr⟩

theorem fits_after? {a b : Assembly} {s : Statement} (hs : s.Fits) (ha : a.root.Fits)
    (h : a.after? s = some b) : b.root.Fits := by
  unfold Assembly.after? at h
  split at h
  all_goals
    obtain ⟨r, hr, rfl⟩ := Option.map_eq_some_iff.1 h
    refine Section.Fits.alter (fun _ t t' ht h => ?_) ha hr
  · exact ht.openTable h
  · exact ht.openElement h
  · exact ht.assign hs h

/-- Every integer in the table of a document fits into 64 bits with a sign. -/
theorem fits_parse? {s : String} {root : List (String × Value)} (h : parse? s = some root) :
    ∀ e ∈ root, e.2.Fits := by
  obtain ⟨ss, hss, h⟩ := Option.bind_eq_some_iff.1 h
  obtain ⟨a, ha, h⟩ := Option.bind_eq_some_iff.1 h
  cases h
  have hroot : a.root.Fits :=
    foldlM_keeps (P := fun b => b.root.Fits)
      (fun s hs _ _ ht h => fits_after? (fits_statements hss s hs) ht h) (List.forall_mem_nil _) ha
  exact Section.Fits.entryValues hroot

end Quorate.Toml
