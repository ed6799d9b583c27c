/-
Documents that differ only in the order of members. As long as no object has two members with one
key, readers do not see the difference: a free value sorts its members, a record looks its fields up
by their names, and a table has its entries in key order.
-/
import Quorate.Proofs.Json.Kept

namespace Quorate.Json

namespace Doc

mutual

/-- The members of objects, at any depth, are in another order. -/
inductive Reordered : Doc → Doc → Prop
  | refl (d : Doc) : Reordered d d
  | array {ds es : List Doc} : List.Forall₂ Reordered ds es → Reordered (.array ds) (.array es)
  | object {ms paired ns : List (Quoted × Doc)} : List.Forall₂ ReorderedUnder ms paired →
      paired.Perm ns → Reordered (.object ms) (.object ns)

/-- A member with the same key holds a reordered document. -/
inductive ReorderedUnder : Quoted × Doc → Quoted × Doc → Prop
  | key (k : Quoted) {d e : Doc} : Reordered d e → ReorderedUnder (k, d) (k, e)

end

/-- No object, at any depth, has two members whose keys mean one text. -/
inductive Distinct : Doc → Prop
  | null : Distinct .null
  | bool (b : Bool) : Distinct (.bool b)
  | number (n : Numeral) : Distinct (.number n)
  | text (q : Quoted) : Distinct (.text q)
  | array {ds : List Doc} : (∀ d ∈ ds, Distinct d) → Distinct (.array ds)
  | object {ms : List (Quoted × Doc)} : (ms.filterMap fun m => m.1.text?).Nodup →
      (∀ m ∈ ms, Distinct m.2) → Distinct (.object ms)

theorem distinct_array {ds : List Doc} : (Doc.array ds).Distinct ↔ ∀ d ∈ ds, d.Distinct :=
  ⟨fun | .array h => h, .array⟩

theorem distinct_object {ms : List (Quoted × Doc)} : (Doc.object ms).Distinct ↔
    (ms.filterMap fun m => m.1.text?).Nodup ∧ ∀ m ∈ ms, m.2.Distinct :=
  ⟨fun | .object hkeys h => ⟨hkeys, h⟩, fun h => .object h.1 h.2⟩

mutual

def decideDistinct : (d : Doc) → Decidable d.Distinct
  | .null => isTrue .null
  | .bool b => isTrue (.bool b)
  | .number n => isTrue (.number n)
  | .text q => isTrue (.text q)
  | .array ds => @decidable_of_iff' _ _ distinct_array (decideItems ds)
  | .object ms => @decidable_of_iff' _ _ distinct_object
    (@instDecidableAnd _ _ inferInstance (decideMembers ms))

def decideItems : (ds : List Doc) → Decidable (∀ d ∈ ds, d.Distinct)
  | [] => isTrue nofun
  | d :: ds => @decidable_of_iff' _ _ List.forall_mem_cons
    (@instDecidableAnd _ _ (decideDistinct d) (decideItems ds))

def decideMembers : (ms : List (Quoted × Doc)) → Decidable (∀ m ∈ ms, m.2.Distinct)
  | [] => isTrue nofun
  | (_, d) :: ms => @decidable_of_iff' _ _ List.forall_mem_cons
    (@instDecidableAnd _ _ (decideDistinct d) (decideMembers ms))

end

instance : DecidablePred Distinct := decideDistinct

theorem Reordered.exists_items {ds : List Doc} {e : Doc} (h : (Doc.array ds).Reordered e) :
    ∃ es, e = .array es ∧ List.Forall₂ Reordered ds es := by
  cases h with
  | refl => exact ⟨ds, rfl, List.forall₂_same.2 fun d _ => .refl d⟩
  | array hitems => exact ⟨_, rfl, hitems⟩

theorem Reordered.exists_members {ms : List (Quoted × Doc)} {e : Doc}
    (h : (Doc.object ms).Reordered e) : ∃ paired ns, e = .object ns ∧
      List.Forall₂ ReorderedUnder ms paired ∧ paired.Perm ns := by
  cases h with
  | refl => exact ⟨ms, ms, rfl, List.forall₂_same.2 fun m _ => .key m.1 (.refl m.2), .refl ms⟩
  | object hmembers hperm => exact ⟨_, _, rfl, hmembers, hperm⟩

end Doc

/-- A document beside one with its members in another order, while no key comes twice. -/
structure Doc.Shuffled (d e : Doc) : Prop where
  reordered : d.Reordered e
  distinct : d.Distinct

/-! ## Tables -/

theorem keys_of_mapM_entryOf? {κ α : Type} {key : Quoted → Option κ} {read : Doc → Option α}
    {ms : List (Quoted × Doc)} {es : List (κ × α)} (h : ms.mapM (entryOf? key read) = some es) :
    es.map (·.1) = ms.filterMap fun m => key m.1 := by
  rw [mapM_eq_some] at h
  induction h with
  | nil => rfl
  | cons he _ ih => simp only [List.map_cons, List.filterMap_cons, (entryOf?_eq_some.1 he).1, ih]

/-- The table of members whose keys differ does not depend on their order. -/
theorem ofList_reordered {κ α : Type} [DecidableEq κ] [Ord κ] [Std.TransOrd κ]
    [Std.LawfulEqOrd κ] {key : Quoted → Option κ} {read : Doc → Option α}
    {ms paired ns : List (Quoted × Doc)}
    (hdistinct : (ms.filterMap fun m => key m.1).Nodup)
    (hpaired : List.Forall₂ (fun m n => m.1 = n.1 ∧ read m.2 = read n.2) ms paired)
    (hperm : paired.Perm ns) :
    Table.ofList <$> ms.mapM (entryOf? key read) = Table.ofList <$> ns.mapM (entryOf? key read) := by
  have hsame : ms.mapM (entryOf? key read) = paired.mapM (entryOf? key read) := by
    refine mapM_congr_forall₂ (hpaired.imp fun m n h => ?_)
    unfold entryOf?
    rw [h.1, h.2]
  have hentries := mapM_rel_perm (entryOf? key read) hperm
  generalize hes : ms.mapM (entryOf? key read) = x, ns.mapM (entryOf? key read) = y
    at hsame hentries ⊢
  rw [← hsame] at hentries
  cases hentries with
  | none => rfl
  | some hperm =>
    exact congrArg some (Table.ofList_eq_of_perm (keys_of_mapM_entryOf? hes ▸ hdistinct) hperm)

/-! ## Free values -/

namespace Value

theorem ofMembers_membersOf? (limit : Nat) (ms : List (Quoted × Doc)) :
    ofMembers <$> membersOf? limit ms = (fun t => object t.entries) <$>
      (Table.ofList <$> ms.mapM (entryOf? Quoted.text? (ofDoc? limit))) := by
  rw [membersOf?_eq_mapM, Option.map_eq_map, Option.map_eq_map, Option.map_eq_map, Option.map_map]
  rfl

mutual

theorem ofDoc?_reordered : ∀ {d e : Doc} (limit : Nat), d.Reordered e → d.Distinct →
    ofDoc? limit d = ofDoc? limit e
  | .null, _, _, .refl _, _ => rfl
  | .bool _, _, _, .refl _, _ => rfl
  | .number _, _, _, .refl _, _ => rfl
  | .text _, _, _, .refl _, _ => rfl
  | .array _, _, _, .refl _, _ => rfl
  | .object _, _, _, .refl _, _ => rfl
  | .array ds, .array es, limit, .array hitems, .array hdistinct => by
    have heq : ds.mapM (ofDoc? (limit - 1)) = es.mapM (ofDoc? (limit - 1)) :=
      mapM_congr_forall₂ (ofDocs?_reordered (limit - 1) hitems hdistinct)
    rw [ofDoc?, ofDoc?, ofDocs?_eq_mapM, ofDocs?_eq_mapM, heq]
  | .object ms, .object ns, limit, .object hmembers hperm, .object hkeys hdistinct => by
    -- a free value keeps the table of its members and nothing of their order
    have heq := ofList_reordered hkeys (membersOf?_reordered (limit - 1) hmembers hdistinct) hperm
    rw [ofDoc?, ofDoc?, ofMembers_membersOf?, ofMembers_membersOf?, heq]

theorem ofDocs?_reordered : ∀ {ds es : List Doc} (limit : Nat), List.Forall₂ Doc.Reordered ds es →
    (∀ d ∈ ds, d.Distinct) → List.Forall₂ (fun d e => ofDoc? limit d = ofDoc? limit e) ds es
  | [], _, _, .nil, _ => .nil
  | _ :: _, _, limit, .cons hitem hitems, hdistinct => by
    obtain ⟨hd, hds⟩ := List.forall_mem_cons.1 hdistinct
    exact .cons (ofDoc?_reordered limit hitem hd) (ofDocs?_reordered limit hitems hds)

theorem membersOf?_reordered : ∀ {ms ns : List (Quoted × Doc)} (limit : Nat),
    List.Forall₂ Doc.ReorderedUnder ms ns → (∀ m ∈ ms, m.2.Distinct) →
      List.Forall₂ (fun m n => m.1 = n.1 ∧ ofDoc? limit m.2 = ofDoc? limit n.2) ms ns
  | [], _, _, .nil, _ => .nil
  | (k, d) :: _, _, limit, .cons (.key _ hmember) hmembers, hdistinct => by
    obtain ⟨hd, hds⟩ := List.forall_mem_cons.1 hdistinct
    exact .cons ⟨rfl, ofDoc?_reordered limit hmember hd⟩ (membersOf?_reordered limit hmembers hds)

end

end Value

/-! ## Readers -/

namespace Reader

/-- A reader that does not see the order of members. -/
def Blind {α : Type} (read : Reader α) : Prop :=
  ∀ limit {d e : Doc}, d.Shuffled e → read limit d = read limit e

theorem blind_text : text.Blind
  | _, _, _, ⟨.refl _, _⟩ => rfl
  | _, _, _, ⟨.array _, _⟩ => rfl
  | _, _, _, ⟨.object _ _, _⟩ => rfl

theorem blind_textBy {α : Type} (parse : String → Option α) : (textBy parse).Blind := by
  intro limit d e h
  rw [textBy, textBy, blind_text limit h]

theorem blind_below (bound : Nat) : (below bound).Blind
  | _, _, _, ⟨.refl _, _⟩ => rfl
  | _, _, _, ⟨.array _, _⟩ => rfl
  | _, _, _, ⟨.object _ _, _⟩ => rfl

theorem blind_truth : truth.Blind
  | _, _, _, ⟨.refl _, _⟩ => rfl
  | _, _, _, ⟨.array _, _⟩ => rfl
  | _, _, _, ⟨.object _ _, _⟩ => rfl

theorem blind_value : value.Blind :=
  fun limit _ _ h => Value.ofDoc?_reordered limit h.reordered h.distinct

theorem blind_nullable {α : Type} {read : Reader α} (h : read.Blind) : (nullable read).Blind
  | _, _, _, ⟨.refl _, _⟩ => rfl
  | limit, _, _, ⟨.array hitems, hdistinct⟩ =>
    congrArg (some <$> ·) (h limit ⟨.array hitems, hdistinct⟩)
  | limit, _, _, ⟨.object hmembers hperm, hdistinct⟩ =>
    congrArg (some <$> ·) (h limit ⟨.object hmembers hperm, hdistinct⟩)

theorem forall₂_shuffled {ds es : List Doc} (h : List.Forall₂ Doc.Reordered ds es)
    (hdistinct : ∀ d ∈ ds, d.Distinct) : List.Forall₂ Doc.Shuffled ds es :=
  ((List.forall₂_and_left ds es).2 ⟨hdistinct, h⟩).imp fun _ _ h => ⟨h.2, h.1⟩

theorem blind_list {α : Type} {read : Reader α} (h : read.Blind) : (list read).Blind
  | _, _, _, ⟨.refl _, _⟩ => rfl
  | 0, _, _, ⟨.array _, _⟩ => rfl
  | limit + 1, _, _, ⟨.array hitems, .array hdistinct⟩ =>
    mapM_congr_forall₂ ((forall₂_shuffled hitems hdistinct).imp fun _ _ hd => h limit hd)
  | 0, _, _, ⟨.object _ _, _⟩ => rfl
  | _ + 1, _, _, ⟨.object _ _, _⟩ => rfl

end Reader

/-! ## Types -/

theorem blind_string : Reader.Blind (Form.read : Reader String) := Reader.blind_text

theorem blind_bool : Reader.Blind (Form.read : Reader Bool) := Reader.blind_truth

theorem blind_byte : Reader.Blind (Form.read : Reader UInt8) :=
  fun limit _ _ h => congrArg (UInt8.ofNat <$> ·) (Reader.blind_below _ limit h)

theorem blind_word : Reader.Blind (Form.read : Reader UInt32) :=
  fun limit _ _ h => congrArg (UInt32.ofNat <$> ·) (Reader.blind_below _ limit h)

theorem blind_count : Reader.Blind (Form.read : Reader UInt64) :=
  fun limit _ _ h => congrArg (UInt64.ofNat <$> ·) (Reader.blind_below _ limit h)

theorem blind_free : Reader.Blind (Form.read : Reader Value) := Reader.blind_value

theorem blind_items {α : Type} [Form α] (h : Reader.Blind (Form.read : Reader α)) :
    Reader.Blind (Form.read : Reader (List α)) := Reader.blind_list h

/-! ## Records -/

namespace Fields

/-- Fields that hold shuffled documents under the same names. -/
structure Agree (f g : Fields) : Prop where
  limit : f.limit = g.limit
  lookup : ∀ name, Option.Rel Doc.Shuffled (f.members.lookup name) (g.members.lookup name)

theorem Agree.required {f g : Fields} (h : f.Agree g) {α : Type} (name : String) {read : Reader α}
    (hread : read.Blind) : f.required name read = g.required name read := by
  have hlookup := h.lookup name
  unfold Fields.required
  rw [h.limit]
  generalize f.members.lookup name = x, g.members.lookup name = y at hlookup
  cases hlookup with
  | none => rfl
  | some hdoc => exact hread g.limit hdoc

theorem Agree.optional {f g : Fields} (h : f.Agree g) {α : Type} (name : String) (absent : α)
    {read : Reader α} (hread : read.Blind) :
    f.optional name absent read = g.optional name absent read := by
  have hlookup := h.lookup name
  unfold Fields.optional
  rw [h.limit]
  generalize f.members.lookup name = x, g.members.lookup name = y at hlookup
  cases hlookup with
  | none => rfl
  | some hdoc => exact hread g.limit hdoc

/-- Members with the same meaning of their keys, in the same order. -/
def SameField (a b : String × Doc) : Prop := a.1 = b.1 ∧ a.2.Shuffled b.2

/-- Members with the same meaning of their keys, in any order. -/
def SameFields (ks ls : List (String × Doc)) : Prop :=
  ∃ paired, List.Forall₂ SameField ks paired ∧ paired.Perm ls

theorem lookup_sameField {ks ls : List (String × Doc)} (h : List.Forall₂ SameField ks ls)
    (name : String) : Option.Rel Doc.Shuffled (ks.lookup name) (ls.lookup name) := by
  induction h with
  | nil => exact .none
  | @cons a b ks ls hab _ ih =>
    obtain ⟨k, d⟩ := a
    obtain ⟨l, e⟩ := b
    obtain ⟨rfl, hdoc⟩ : k = l ∧ d.Shuffled e := hab
    rw [List.lookup_cons, List.lookup_cons]
    cases name == k with
    | true => exact .some hdoc
    | false => exact ih

theorem keys_sameField {ks ls : List (String × Doc)} (h : List.Forall₂ SameField ks ls) :
    ks.map (·.1) = ls.map (·.1) := by
  rw [← List.forall₂_eq_eq_eq, List.forall₂_map_left_iff, List.forall₂_map_right_iff]
  exact h.imp fun _ _ hab => hab.1

theorem lookup_perm {ks ls : List (String × Doc)} (hperm : ks.Perm ls)
    (hnodup : (ks.map (·.1)).Nodup) (name : String) : ks.lookup name = ls.lookup name := by
  induction hperm with
  | nil => rfl
  | cons a _ ih =>
    obtain ⟨k, d⟩ := a
    rw [List.lookup_cons, List.lookup_cons, ih (List.nodup_cons.1 hnodup).2]
  | swap a b l =>
    obtain ⟨k, d⟩ := a
    obtain ⟨j, e⟩ := b
    -- only one of the two keys that change places can be the one looked for
    have hne : j ≠ k := fun heq => (List.nodup_cons.1 hnodup).1 (heq ▸ List.mem_cons_self ..)
    rw [List.lookup_cons, List.lookup_cons, List.lookup_cons, List.lookup_cons]
    by_cases hj : name = j
    · have hk : (name == k) = false := beq_false_of_ne (hj ▸ hne)
      rw [hk]
    · have hj : (name == j) = false := beq_false_of_ne hj
      rw [hj]
  | trans hperm _ ih ih' => exact (ih hnodup).trans (ih' ((hperm.map _).nodup_iff.1 hnodup))

theorem agree_of_sameFields {ks ls : List (String × Doc)} (h : SameFields ks ls)
    (hnodup : (ks.map (·.1)).Nodup) (limit : Nat) : Agree ⟨ks, limit⟩ ⟨ls, limit⟩ := by
  obtain ⟨paired, hpaired, hperm⟩ := h
  refine ⟨rfl, fun name => ?_⟩
  show Option.Rel _ (ks.lookup name) (ls.lookup name)
  rw [← lookup_perm hperm (keys_sameField hpaired ▸ hnodup)]
  exact lookup_sameField hpaired name

theorem keyed?_shuffled {ms paired ns : List (Quoted × Doc)}
    (hpaired : List.Forall₂ Doc.ReorderedUnder ms paired) (hperm : paired.Perm ns)
    (hdistinct : ∀ m ∈ ms, m.2.Distinct) : Option.Rel SameFields (keyed? ms) (keyed? ns) := by
  have hsame : Option.Rel (List.Forall₂ SameField) (keyed? ms) (keyed? paired) := by
    refine mapM_rel (((List.forall₂_and_left ms paired).2 ⟨hdistinct, hpaired⟩).imp ?_)
    intro m n h
    obtain ⟨hd, h⟩ := h
    cases h with
    | key k hdoc =>
      show Option.Rel SameField (Option.map _ k.text?) (Option.map _ k.text?)
      cases k.text? with
      | none => exact .none
      | some name => exact .some ⟨rfl, hdoc, hd⟩
  have hentries : Option.Rel List.Perm (keyed? paired) (keyed? ns) := mapM_rel_perm _ hperm
  generalize keyed? ms = x, keyed? paired = y, keyed? ns = z at hsame hentries
  cases hsame with
  | none =>
    cases hentries with
    | none => exact .none
  | some hfields =>
    cases hentries with
    | some hperm => exact .some ⟨_, hfields, hperm⟩

theorem known?_sameFields {ks ls : List (String × Doc)} (h : SameFields ks ls)
    (names : List String) :
    Option.Rel (fun ks ls => SameFields ks ls ∧ (ks.map (·.1)).Nodup) (known? names ks)
      (known? names ls) := by
  obtain ⟨paired, hpaired, hperm⟩ := h
  have hfields : List.Forall₂ SameField (ks.filter fun m => names.contains m.1)
      (paired.filter fun m => names.contains m.1) := by
    refine List.rel_filter (fun a b hab => ?_) hpaired
    show names.contains a.1 = true ↔ names.contains b.1 = true
    rw [hab.1]
  have hperm := hperm.filter fun m => names.contains m.1
  have hkeys := ((hperm.map (·.1)).nodup_iff).symm
  rw [← keys_sameField hfields] at hkeys
  -- a known name that comes twice is refused on both sides, and so the order cannot choose
  unfold known?
  by_cases hnodup : ((ks.filter fun m => names.contains m.1).map (·.1)).Nodup
  · simp only [hkeys.2 hnodup, hnodup, if_true]
    exact .some ⟨⟨_, hfields, hperm⟩, hnodup⟩
  · simp only [mt hkeys.1 hnodup, hnodup, if_false]
    exact .none

theorem all_sameFields {ks ls : List (String × Doc)} (h : SameFields ks ls) (limit : Nat) :
    (ks.all fun m => (Reader.value limit m.2).isSome) =
      ls.all fun m => (Reader.value limit m.2).isSome := by
  obtain ⟨paired, hpaired, hperm⟩ := h
  rw [← hperm.all_eq]
  clear hperm
  induction hpaired with
  | nil => rfl
  | cons hab _ ih => rw [List.all_cons, List.all_cons, ih, Reader.blind_value limit hab.2]

theorem agree_of_known? (names : List String) (limit : Nat) {ks ls : List (String × Doc)}
    (h : SameFields ks ls) :
    Option.Rel Agree (do some ⟨← known? names ks, limit⟩) (do some ⟨← known? names ls, limit⟩) :=
  rel_bind (known?_sameFields h names) fun _ _ hknown =>
    .some (agree_of_sameFields hknown.1 hknown.2 limit)

theorem sameField_zip : ∀ (names : List String) {ds es : List Doc},
    List.Forall₂ Doc.Shuffled ds es → List.Forall₂ SameField (names.zip ds) (names.zip es)
  | [], _, _, _ => .nil
  | _ :: _, _, _, .nil => .nil
  | _ :: names, _, _, .cons hdoc hdocs => .cons ⟨rfl, hdoc⟩ (sameField_zip names hdocs)

/-- The fields of a record are found in any order. -/
theorem ofDoc?_shuffled (names : List String) (limit : Nat) {d e : Doc} (h : d.Shuffled e) :
    Option.Rel Agree (ofDoc? names limit d) (ofDoc? names limit e) := by
  obtain ⟨horder, hdistinct⟩ := h
  cases limit with
  | zero =>
    have hnone : ∀ d, ofDoc? names 0 d = none := fun d => by cases d <;> rfl
    rw [hnone, hnone]
    exact .none
  | succ limit =>
    cases hdistinct with
    | array hdistinct =>
      obtain ⟨es, rfl, hitems⟩ := horder.exists_items
      have hdocs := Reader.forall₂_shuffled hitems hdistinct
      rw [ofDoc?, ofDoc?, hdocs.length_eq]
      split
      · exact .some ⟨rfl, lookup_sameField (sameField_zip names hdocs)⟩
      · exact .none
    | object _ hdistinct =>
      obtain ⟨paired, ns, rfl, hpaired, hperm⟩ := horder.exists_members
      rw [ofDoc?, ofDoc?]
      refine rel_bind (keyed?_shuffled hpaired hperm hdistinct) fun ks ls hfields => ?_
      exact agree_of_known? names limit hfields
    | _ =>
      cases horder
      exact .none

theorem ofFlat?_shuffled (names : List String) (limit : Nat) {d e : Doc} (h : d.Shuffled e) :
    Option.Rel Agree (ofFlat? names limit d) (ofFlat? names limit e) := by
  obtain ⟨horder, hdistinct⟩ := h
  cases limit with
  | zero =>
    have hnone : ∀ d, ofFlat? names 0 d = none := fun d => by cases d <;> rfl
    rw [hnone, hnone]
    exact .none
  | succ limit =>
    cases hdistinct with
    | array _ =>
      obtain ⟨es, rfl, _⟩ := horder.exists_items
      exact .none
    | object _ hdistinct =>
      obtain ⟨paired, ns, rfl, hpaired, hperm⟩ := horder.exists_members
      rw [ofFlat?, ofFlat?]
      refine rel_bind (keyed?_shuffled hpaired hperm hdistinct) fun ks ls hfields => ?_
      rw [all_sameFields hfields limit]
      split
      · exact agree_of_known? names limit hfields
      · exact .none
    | _ =>
      cases horder
      exact .none

/-- So a record whose fields are read without regard to order is itself read so. -/
theorem blind_record {α : Type} {names : List String} {build : Fields → Option α}
    (h : ∀ f g, Agree f g → build f = build g) :
    Reader.Blind fun limit d => ofDoc? names limit d >>= build :=
  fun limit _ _ hdoc => bind_eq_of_rel (ofDoc?_shuffled names limit hdoc) h

theorem blind_flat {α : Type} {names : List String} {build : Fields → Option α}
    (h : ∀ f g, Agree f g → build f = build g) :
    Reader.Blind fun limit d => ofFlat? names limit d >>= build :=
  fun limit _ _ hdoc => bind_eq_of_rel (ofFlat?_shuffled names limit hdoc) h

end Fields

end Quorate.Json
