/-
The contents of tables. A table has an entry exactly where a key has a value, and each operation is
known by the values that it leaves under the keys.
-/
import Quorate.Table
import Mathlib.Data.List.Basic
import Mathlib.Data.List.Induction
import Mathlib.Data.List.Nodup

namespace Quorate.Table

variable {κ α β : Type} [Ord κ]

theorem find_eq_ok {ε : Type} {t : Table κ α} {k : κ} {absent : ε} {v : α} :
    t.find k absent = .ok v ↔ t.get? k = some v := by
  unfold find
  cases t.get? k <;> simp

theorem find_eq_error {ε : Type} {t : Table κ α} {k : κ} {absent e : ε} :
    t.find k absent = .error e ↔ t.get? k = none ∧ e = absent := by
  unfold find
  cases t.get? k <;> simp [eq_comm]

theorem find_of_get? {ε : Type} {t : Table κ α} {k : κ} {v : α} (absent : ε)
    (h : t.get? k = some v) : t.find k absent = .ok v := find_eq_ok.2 h

theorem contains_iff {t : Table κ α} {k : κ} : t.contains k = true ↔ ∃ v, t.get? k = some v := by
  unfold contains
  rw [Option.isSome_iff_exists]

@[simp] theorem get?_empty (k : κ) : (∅ : Table κ α).get? k = none := rfl

@[simp] theorem get?_map (f : κ → α → β) (t : Table κ α) [Std.LawfulEqOrd κ] (k : κ) :
    (t.map f).get? k = (t.get? k).map (f k) := by
  obtain ⟨l, hl⟩ := t
  unfold get? map
  simp only
  clear hl
  induction l with
  | nil => rfl
  | cons e l ih =>
    simp only [List.map_cons, List.find?_cons]
    cases h : compare e.1 k == .eq with
    | true =>
      rw [Std.LawfulEqOrd.compare_beq_iff_eq] at h
      simp [h]
    | false => simpa using ih

theorem keys_ascending (t : Table κ α) : t.keys.Pairwise fun j k => compare j k = .lt :=
  List.pairwise_map.2 t.sorted

/-! ## Entries under keys -/

variable [Std.LawfulEqOrd κ]

theorem ne_of_lt {j k : κ} (h : compare j k = .lt) : j ≠ k := by
  rintro rfl
  have heq : compare j j = .eq := Std.ReflCmp.compare_self
  rw [heq] at h
  cases h

/-- In ascending entries the first one with a key is the only one. -/
theorem find?_key_eq_some {k : κ} {v : α} :
    ∀ {l : List (κ × α)}, l.Pairwise (fun a b => compare a.1 b.1 = .lt) →
      ((l.find? fun e => compare e.1 k == .eq).map (·.2) = some v ↔ (k, v) ∈ l)
  | [], _ => by simp
  | e :: l, h => by
    obtain ⟨hlt, hl⟩ := List.pairwise_cons.1 h
    rw [List.find?_cons, List.mem_cons]
    cases hk : compare e.1 k == .eq with
    | true =>
      rw [Std.LawfulEqOrd.compare_beq_iff_eq] at hk
      subst hk
      simp only [Option.map_some, Option.some.injEq]
      constructor
      · rintro rfl; exact .inl rfl
      · rintro (he | hm)
        · rw [← he]
        · exact absurd rfl (ne_of_lt (hlt (e.1, v) hm))
    | false =>
      have hne : (k, v) ≠ e := by
        rintro rfl
        simp [Std.ReflCmp.compare_self] at hk
      rw [find?_key_eq_some hl]
      exact ⟨.inr, fun hm => hm.resolve_left hne⟩

theorem get?_eq_some {t : Table κ α} {k : κ} {v : α} : t.get? k = some v ↔ (k, v) ∈ t.entries :=
  find?_key_eq_some t.sorted

theorem nodup_keys (t : Table κ α) : t.keys.Nodup := t.keys_ascending.imp ne_of_lt

theorem mem_keys {t : Table κ α} {k : κ} : k ∈ t.keys ↔ ∃ v, t.get? k = some v := by
  unfold keys
  rw [List.mem_map]
  constructor
  · rintro ⟨⟨k, v⟩, h, rfl⟩
    exact ⟨v, get?_eq_some.2 h⟩
  · rintro ⟨v, h⟩
    exact ⟨(k, v), get?_eq_some.1 h, rfl⟩

theorem isEmpty_iff {t : Table κ α} : t.isEmpty = true ↔ ∀ k, t.get? k = none := by
  unfold isEmpty
  rw [List.isEmpty_iff, List.eq_nil_iff_forall_not_mem]
  simp only [Prod.forall, ← get?_eq_some, Option.eq_none_iff_forall_ne_some]

/-- The values under the keys are all that there is to a table. -/
theorem ext_get? [Std.TransOrd κ] {s t : Table κ α} (h : ∀ k, s.get? k = t.get? k) : s = t := by
  have hnodup : ∀ u : Table κ α, u.entries.Nodup := by
    intro u
    refine u.sorted.imp fun {a b} hlt hab => ?_
    exact ne_of_lt hlt (congrArg Prod.fst hab)
  have hmem : ∀ e, e ∈ s.entries ↔ e ∈ t.entries := by
    intro e
    rw [← get?_eq_some, ← get?_eq_some, h]
  have hperm := (List.perm_ext_iff_of_nodup (hnodup s) (hnodup t)).2 hmem
  refine ext (hperm.eq_of_pairwise (fun a b _ _ hab hba => ?_) s.sorted t.sorted)
  -- no key lies both below and above another
  have hgt := Std.OrientedCmp.gt_of_lt hab
  rw [hba] at hgt
  cases hgt

/-! ## Insertion -/

variable [Std.TransOrd κ]

/-- What an ascending list holds once an entry is put into it. -/
theorem mem_insertEntry {k j : κ} {v u : α} :
    ∀ {l : List (κ × α)}, l.Pairwise (fun a b => compare a.1 b.1 = .lt) →
      ((j, u) ∈ insertEntry k v l ↔ (j = k ∧ u = v) ∨ (j ≠ k ∧ (j, u) ∈ l))
  | [], _ => by simp [insertEntry]
  | e :: l, h => by
    obtain ⟨hlt, hl⟩ := List.pairwise_cons.1 h
    -- the new key lies below every entry behind one that is not below it
    have hbehind : compare k e.1 ≠ .gt → (k, u) ∉ l := fun hk hm =>
      hk (Std.OrientedCmp.gt_of_lt (hlt _ hm))
    unfold insertEntry
    split
    · rename_i hke
      have hne : (k, u) ≠ e := by
        rintro rfl
        exact ne_of_lt hke rfl
      by_cases hj : j = k
      · subst hj
        simp [hne, hbehind (by rw [hke]; simp)]
      · simp [hj]
    · rename_i hke
      have he : k = e.1 := Std.LawfulEqCmp.eq_of_compare hke
      by_cases hj : j = k
      · subst hj
        simp [hbehind (by rw [hke]; simp)]
      · have hne : (j, u) ≠ e := by
          rintro rfl
          exact hj he.symm
        simp [hj, hne]
    · rename_i hke
      rw [List.mem_cons, List.mem_cons, mem_insertEntry hl]
      by_cases hj : j = k
      · subst hj
        have hne : (j, u) ≠ e := by
          rintro rfl
          exact ne_of_lt (Std.OrientedCmp.lt_of_gt hke) rfl
        simp [hne]
      · simp [hj]

theorem get?_insert [DecidableEq κ] (t : Table κ α) (k j : κ) (v : α) :
    (t.insert k v).get? j = if j = k then some v else t.get? j := by
  apply Option.ext
  intro u
  rw [get?_eq_some, insert, mem_insertEntry t.sorted]
  split
  · rename_i hj
    simp [hj, eq_comm]
  · rename_i hj
    simp [hj, get?_eq_some]

/-! ## Tables of lists -/

variable [DecidableEq κ]

/-- Under each key a table has what comes last under it in its list. -/
theorem get?_ofList_eq_lookup (l : List (κ × α)) (k : κ) :
    (ofList l).get? k = l.reverse.lookup k := by
  induction l using List.reverseRecOn with
  | nil => rfl
  | append_singleton l e ih =>
    have hlast : ofList (l ++ [e]) = (ofList l).insert e.1 e.2 := List.foldl_append ..
    rw [hlast, get?_insert, ih, List.reverse_append, List.reverse_singleton,
      List.singleton_append, List.lookup_cons]
    by_cases h : k = e.1
    · simp [h]
    · rw [if_neg h, beq_false_of_ne h]

/-- A table of a list holds nothing else. -/
theorem mem_of_mem_ofList {l : List (κ × α)} {e : κ × α} (h : e ∈ (ofList l).entries) : e ∈ l := by
  rw [← get?_eq_some, get?_ofList_eq_lookup, List.lookup_eq_some_iff] at h
  obtain ⟨after, before, hl, _⟩ := h
  rw [← List.mem_reverse, hl]
  exact List.mem_append_right after (List.mem_cons_self ..)

theorem mem_keys_ofList {l : List (κ × α)} {k : κ} :
    k ∈ (ofList l).keys ↔ k ∈ l.map (·.1) := by
  rw [mem_keys, ← Option.isSome_iff_exists, get?_ofList_eq_lookup, List.lookup_isSome_iff,
    List.mem_map]
  exact exists_congr fun e => and_congr List.mem_reverse (beq_iff_eq.trans eq_comm)

/-- A list in which no key comes twice is all that its table holds. -/
theorem get?_ofList {l : List (κ × α)} (h : (l.map (·.1)).Nodup) {k : κ} {v : α} :
    (ofList l).get? k = some v ↔ (k, v) ∈ l := by
  refine ⟨fun h => mem_of_mem_ofList (get?_eq_some.1 h), fun hmem => ?_⟩
  obtain ⟨after, before, hl⟩ := List.append_of_mem (List.mem_reverse.2 hmem)
  rw [get?_ofList_eq_lookup, List.lookup_eq_some_iff]
  refine ⟨after, before, hl, fun e he => bne_iff_ne.2 fun hk => ?_⟩
  rw [← List.nodup_reverse, ← List.map_reverse, hl, List.map_append, List.map_cons,
    List.nodup_append] at h
  exact h.2.2 e.1 (List.mem_map_of_mem he) k (List.mem_cons_self ..) hk.symm

/-- A table is the one that its entries make. -/
theorem ofList_entries (t : Table κ α) : ofList t.entries = t := by
  apply ext_get?
  intro k
  apply Option.ext
  intro v
  rw [get?_ofList t.nodup_keys, get?_eq_some]

/-- Of a list in which no key comes twice, a table keeps every entry. -/
theorem entries_ofList_perm {l : List (κ × α)} (h : (l.map (·.1)).Nodup) :
    (ofList l).entries.Perm l := by
  refine (List.perm_ext_iff_of_nodup (ofList l).nodup_keys.of_map h.of_map).2 fun e => ?_
  rw [← get?_eq_some, get?_ofList h]

/-- Keys that ascend are those of the table of their entries. -/
theorem keys_ofList {l : List (κ × α)} (h : (l.map (·.1)).Pairwise fun j k => compare j k = .lt) :
    (ofList l).keys = l.map (·.1) :=
  congrArg keys (ofList_entries ⟨l, List.pairwise_map.1 h⟩)

/-- The order of entries does not matter while no key comes twice. -/
theorem ofList_eq_of_perm {l l' : List (κ × α)} (h : (l.map (·.1)).Nodup) (hperm : l.Perm l') :
    ofList l = ofList l' := by
  have h' : (l'.map (·.1)).Nodup := (hperm.map _).nodup_iff.1 h
  apply ext_get?
  intro k
  apply Option.ext
  intro v
  rw [get?_ofList h, get?_ofList h', hperm.mem_iff]

/-- Putting in what is found for each key of a list, one after the other, leaves under each of these
keys what is found for it, and the rest as it was. -/
theorem exists_foldlM_insert {ε : Type} {f : κ → Except ε α} : ∀ {l : List κ} (t : Table κ α),
    (∀ k ∈ l, ∃ v, f k = .ok v) →
      ∃ u, l.foldlM (fun t k => t.insert k <$> f k) t = .ok u ∧ ∀ k v, u.get? k = some v ↔
        (k ∈ l ∧ f k = .ok v) ∨ (k ∉ l ∧ t.get? k = some v)
  | [], t, _ => ⟨t, rfl, by simp⟩
  | j :: l, t, h => by
    obtain ⟨⟨x, hx⟩, hl⟩ := List.forall_mem_cons.1 h
    obtain ⟨u, hu, hget⟩ := exists_foldlM_insert (t.insert j x) hl
    refine ⟨u, ?_, fun k v => ?_⟩
    · rw [List.foldlM_cons, hx]
      exact hu
    · rw [hget, get?_insert, List.mem_cons]
      by_cases hk : k = j
      · subst hk
        simp only [hx, if_true, true_or, true_and, not_true, false_and, or_false,
          Option.some.injEq, Except.ok.injEq]
        tauto
      · simp only [hk, if_false, false_or]

end Quorate.Table
