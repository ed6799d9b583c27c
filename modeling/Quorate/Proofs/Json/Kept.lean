/-
Reading back what was written. A free value that has been read has its members in key order and
numbers that fit, so it is read from its own document again; a record is written as an object, in
which its fields are found by their names.
-/
import Quorate.Json.Form
import Quorate.Proofs.Json.Written
import Quorate.Proofs.Options
import Quorate.Proofs.Table

namespace Quorate.Json

/-! ## Numbers and texts -/

theorem Number.ofNumeral?_ofInt {i : Int} (h : fits i = true) :
    ofNumeral? (.ofInt i) = some (.int i) := by
  unfold ofNumeral?
  rw [Numeral.integer?_ofInt]
  exact if_pos h

theorem Number.fits_of_ofNumeral? {n : Numeral} {i : Int} (h : ofNumeral? n = some (.int i)) :
    fits i = true := by
  unfold ofNumeral? at h
  split at h
  · split at h
    · rename_i hfits
      cases h
      exact hfits
    · obtain ⟨x, _, heq⟩ := Option.map_eq_some_iff.1 h
      cases heq
  · obtain ⟨x, _, heq⟩ := Option.map_eq_some_iff.1 h
    cases heq

theorem Number.fits_natCast {n : Nat} (h : n < UInt64.size) : fits n = true := by
  have hn : (n : Int) < 0x10000000000000000 := by
    have : n < 0x10000000000000000 := h
    omega
  have hlow : -0x8000000000000000 ≤ (n : Int) := by omega
  rw [fits, decide_eq_true hlow, decide_eq_true hn]
  rfl

/-! ## Members -/

/-- The entry that a member makes, if its key and its value can be read. -/
def entryOf? {κ α : Type} (key : Quoted → Option κ) (read : Doc → Option α) (m : Quoted × Doc) :
    Option (κ × α) := do
  let k ← key m.1
  let a ← read m.2
  some (k, a)

theorem entryOf?_eq_some {κ α : Type} {key : Quoted → Option κ} {read : Doc → Option α}
    {m : Quoted × Doc} {e : κ × α} :
    entryOf? key read m = some e ↔ key m.1 = some e.1 ∧ read m.2 = some e.2 := by
  unfold entryOf?
  simp only [Option.bind_eq_bind, Option.bind_eq_some_iff, Option.some.injEq]
  constructor
  · rintro ⟨k, hk, a, ha, rfl⟩
    exact ⟨hk, ha⟩
  · rintro ⟨hk, ha⟩
    exact ⟨e.1, hk, e.2, ha, rfl⟩

/-! ## Free values -/

namespace Value

theorem ofDocs?_eq_mapM (limit : Nat) (ds : List Doc) :
    ofDocs? limit ds = ds.mapM (ofDoc? limit) := by
  induction ds with
  | nil => rfl
  | cons d ds ih => rw [ofDocs?, ih, List.mapM_cons]; rfl

theorem membersOf?_eq_mapM (limit : Nat) (ms : List (Quoted × Doc)) :
    membersOf? limit ms = ms.mapM (entryOf? Quoted.text? (ofDoc? limit)) := by
  induction ms with
  | nil => rfl
  | cons m ms ih =>
    rw [membersOf?, ih, List.mapM_cons]
    unfold entryOf?
    cases m.1.text? with
    | none => rfl
    | some key => cases ofDoc? limit m.2 <;> rfl

mutual

/-- A value that has been read is read from the document that is written of it. -/
theorem ofDoc?_toDoc : ∀ {d : Doc} {limit : Nat} {v : Value}, ofDoc? limit d = some v → v.Whole →
    ofDoc? limit v.toDoc = some v
  | .null, limit, v, h, _ => by
    cases h
    rfl
  | .bool b, limit, v, h, _ => by
    cases h
    rfl
  | .number n, limit, v, h, hwhole => by
    obtain ⟨x, hx, rfl⟩ := Option.map_eq_some_iff.1 h
    cases hwhole with
    | int i =>
      show number <$> Number.ofNumeral? _ = _
      rw [Number.ofNumeral?_ofInt (Number.fits_of_ofNumeral? hx)]
      rfl
  | .text q, limit, v, h, _ => by
    obtain ⟨s, _, rfl⟩ := Option.map_eq_some_iff.1 h
    show string <$> _ = _
    rw [Quoted.text?_ofText]
    rfl
  | .array ds, limit, v, h, hwhole => by
    rw [ofDoc?] at h
    split at h
    · cases h
    · rename_i hlimit
      obtain ⟨vs, hvs, rfl⟩ := Option.map_eq_some_iff.1 h
      cases hwhole with
      | array hitems =>
        rw [toDoc, ofDoc?, if_neg hlimit, docsOf_eq_map, ofDocs?_eq_mapM,
          mapM_map_eq_some fun v hv => ofDocs?_toDoc hvs v hv (hitems v hv)]
        rfl
  | .object ms, limit, v, h, hwhole => by
    rw [ofDoc?] at h
    split at h
    · cases h
    · rename_i hlimit
      obtain ⟨l, hl, rfl⟩ := Option.map_eq_some_iff.1 h
      cases hwhole with
      | object hmembers =>
        -- the members of a table are some of those read, in the order in which they are read again
        have hkept : ∀ m ∈ (Table.ofList l).entries, ofDoc? (limit - 1) m.2.toDoc = some m.2 :=
          fun m hm => membersOf?_toDoc hl m (Table.mem_of_mem_ofList hm) (hmembers m hm)
        rw [ofMembers, toDoc, ofDoc?, if_neg hlimit, membersOf_eq_map, membersOf?_eq_mapM,
          mapM_map_eq_some fun m hm => entryOf?_eq_some.2 ⟨Quoted.text?_ofText m.1, hkept m hm⟩,
          Option.map_eq_map, Option.map_some, ofMembers, Table.ofList_entries]

theorem ofDocs?_toDoc : ∀ {ds : List Doc} {limit : Nat} {vs : List Value},
    ofDocs? limit ds = some vs → ∀ v ∈ vs, v.Whole → ofDoc? limit v.toDoc = some v
  | [], limit, vs, h => by
    cases h
    nofun
  | d :: ds, limit, vs, h => by
    obtain ⟨w, hw, h⟩ := Option.bind_eq_some_iff.1 h
    obtain ⟨ws, hws, h⟩ := Option.bind_eq_some_iff.1 h
    cases h
    intro v hv hwhole
    rcases List.mem_cons.1 hv with rfl | hv
    · exact ofDoc?_toDoc hw hwhole
    · exact ofDocs?_toDoc hws v hv hwhole

theorem membersOf?_toDoc : ∀ {ms : List (Quoted × Doc)} {limit : Nat} {l : List (String × Value)},
    membersOf? limit ms = some l → ∀ m ∈ l, m.2.Whole → ofDoc? limit m.2.toDoc = some m.2
  | [], limit, l, h => by
    cases h
    nofun
  | (k, d) :: ms, limit, l, h => by
    obtain ⟨key, _, h⟩ := Option.bind_eq_some_iff.1 h
    obtain ⟨w, hw, h⟩ := Option.bind_eq_some_iff.1 h
    obtain ⟨rest, hrest, h⟩ := Option.bind_eq_some_iff.1 h
    cases h
    intro m hm hwhole
    rcases List.mem_cons.1 hm with rfl | hm
    · exact ofDoc?_toDoc hw hwhole
    · exact membersOf?_toDoc hrest m hm hwhole

end

theorem ne_null_of_ofDoc? {limit : Nat} {d : Doc} {v : Value} (h : ofDoc? limit d = some v)
    (hd : d ≠ .null) : v ≠ null := by
  rintro rfl
  cases d with
  | null => exact hd rfl
  | bool b => cases h
  | number n =>
    obtain ⟨x, _, heq⟩ := Option.map_eq_some_iff.1 h
    cases heq
  | text q =>
    obtain ⟨s, _, heq⟩ := Option.map_eq_some_iff.1 h
    cases heq
  | array ds =>
    rw [ofDoc?] at h
    split at h
    · cases h
    · obtain ⟨vs, _, heq⟩ := Option.map_eq_some_iff.1 h
      cases heq
  | object ms =>
    rw [ofDoc?] at h
    split at h
    · cases h
    · obtain ⟨l, _, heq⟩ := Option.map_eq_some_iff.1 h
      cases heq

theorem toDoc_ne_null {v : Value} (hwhole : v.Whole) (hnull : v ≠ null) : v.toDoc ≠ .null := by
  cases hwhole with
  | null => exact absurd rfl hnull
  | _ => exact nofun

end Value

theorem Reader.ofBytes?_of_doc {α : Type} (read : Reader α) {bs : List UInt8} {d : Doc}
    (h : Doc.ofBytes? bs = some d) : read.ofBytes? bs = read nestingLimit d := by
  rw [Reader.ofBytes?, h]
  rfl

/-! ## Types -/

/-- A value of a type is read from the document that is written of it. -/
def Rereads {α : Type} [Form α] (limit : Nat) (a : α) : Prop :=
  Form.read limit (Form.write a).toDoc = some a

/-- What has been read of a type is read again from what is written of it, if it has a property and
some containers may be nested in it. -/
def Keeps (α : Type) [Form α] (least : Nat) (P : α → Prop) : Prop :=
  ∀ limit d (a : α), least ≤ limit → Form.read limit d = some a → P a → Rereads limit a

theorem rereads_string (limit : Nat) (s : String) : Rereads limit s := Quoted.text?_ofText s

theorem rereads_bool (limit : Nat) (b : Bool) : Rereads limit b := rfl

theorem below_written {n bound : Nat} (h : n < bound) (limit : Nat) :
    Reader.below bound limit (Value.number (.int n)).toDoc = some n := Numeral.natBelow?_ofInt h

theorem rereads_byte (limit : Nat) (n : UInt8) : Rereads limit n := by
  show UInt8.ofNat <$> Reader.below UInt8.size limit (Value.number (.int n.toNat)).toDoc = some n
  rw [below_written n.toNat_lt, Option.map_eq_map, Option.map_some, UInt8.ofNat_toNat]

theorem rereads_word (limit : Nat) (n : UInt32) : Rereads limit n := by
  show UInt32.ofNat <$> Reader.below UInt32.size limit (Value.number (.int n.toNat)).toDoc = some n
  rw [below_written n.toNat_lt, Option.map_eq_map, Option.map_some, UInt32.ofNat_toNat]

theorem rereads_count (limit : Nat) (n : UInt64) : Rereads limit n := by
  show UInt64.ofNat <$> Reader.below UInt64.size limit (Value.number (.int n.toNat)).toDoc = some n
  rw [below_written n.toNat_lt, Option.map_eq_map, Option.map_some, UInt64.ofNat_toNat]

theorem keeps_value : Keeps Value 0 Value.Whole := fun _ _ _ _ => Value.ofDoc?_toDoc

theorem rereads_text (limit : Nat) (s : String) : Rereads limit (Value.string s) := by
  show Value.string <$> (Quoted.ofText s).text? = _
  rw [Quoted.text?_ofText]
  rfl

theorem rereads_natural {n : Nat} (h : n < UInt64.size) (limit : Nat) :
    Rereads limit (Value.number (.int n)) := by
  show Value.number <$> Number.ofNumeral? (.ofInt n) = _
  rw [Number.ofNumeral?_ofInt (Number.fits_natCast h)]
  rfl

theorem rereads_array {limit : Nat} {vs : List Value} (h : ∀ v ∈ vs, Rereads limit v) :
    Rereads (limit + 1) (Value.array vs) := by
  have hvs : (vs.map Value.toDoc).mapM (Value.ofDoc? limit) = some vs := mapM_map_eq_some h
  show Value.array <$> Value.ofDocs? limit (Value.docsOf vs) = _
  rw [Value.docsOf_eq_map, Value.ofDocs?_eq_mapM, hvs]
  rfl

theorem Rereads.parse?_toText {α : Type} [Form α] {a : α} (h : Rereads nestingLimit a)
    (hwhole : (Form.write a).Whole) : parse? α (toText a) = some a := by
  unfold parse? Reader.ofText? toText
  rw [Value.ofText?_toText hwhole, Option.bind_eq_bind, Option.bind_some]
  exact h

theorem Rereads.parse?_toPretty {α : Type} [Form α] {a : α} (h : Rereads nestingLimit a)
    (hwhole : (Form.write a).Whole) : parse? α (toPretty a) = some a := by
  unfold parse? Reader.ofText? toPretty
  rw [Value.ofText?_toPretty hwhole, Option.bind_eq_bind, Option.bind_some]
  exact h

/-! ## Lists and fields that may be null -/

theorem rereads_list {α : Type} [Form α] {limit : Nat} {as : List α}
    (h : ∀ a ∈ as, Rereads limit a) : Rereads (limit + 1) as := by
  show ((Value.docsOf (as.map Form.write)).mapM (Form.read limit) : Option (List α)) = some as
  rw [Value.docsOf_eq_map, List.map_map]
  exact mapM_map_eq_some h

theorem keeps_list {α : Type} [Form α] {least : Nat} {P : α → Prop} (h : Keeps α least P) :
    Keeps (List α) (least + 1) fun as => ∀ a ∈ as, P a := by
  intro limit d as hlimit hread hP
  cases limit with
  | zero => omega
  | succ limit =>
    refine rereads_list fun a ha => ?_
    match d, hread with
    | .array items, hread =>
      obtain ⟨item, _, hitem⟩ := exists_of_mapM_eq_some hread ha
      exact h limit item a (by omega) hitem (hP a ha)

theorem whole_list {α : Type} [Form α] {as : List α} (h : ∀ a ∈ as, (Form.write a).Whole) :
    (Form.write as).Whole := by
  refine .array fun v hv => ?_
  obtain ⟨a, ha, rfl⟩ := List.mem_map.1 hv
  exact h a ha

theorem nullable_of_ne_null {α : Type} {read : Reader α} {limit : Nat} {d : Doc} (h : d ≠ .null) :
    Reader.nullable read limit d = some <$> read limit d := by
  unfold Reader.nullable
  split
  · exact absurd rfl h
  · rfl

theorem rereads_nullable {α : Type} [Form α] {limit : Nat} {a : α}
    (hnull : (Form.write a).toDoc ≠ .null) (h : Rereads limit a) :
    Reader.nullable Form.read limit (Form.write a).toDoc = some (some a) := by
  rw [nullable_of_ne_null hnull, h]
  rfl

theorem nullable_eq_some_some {α : Type} {read : Reader α} {limit : Nat} {d : Doc} {a : α}
    (h : Reader.nullable read limit d = some (some a)) : d ≠ .null ∧ read limit d = some a := by
  unfold Reader.nullable at h
  split at h
  · cases h
  · rename_i hd
    obtain ⟨_, hb, heq⟩ := Option.map_eq_some_iff.1 h
    cases heq
    exact ⟨hd, hb⟩

theorem map_present_sublist {α : Type} [Form α] (name : String) (a : Option α) :
    ((present name a).map (·.1)).Sublist [name] := by
  cases a with
  | none => exact List.nil_sublist _
  | some a => exact List.Sublist.refl _

/-! ## Records -/

namespace Fields

/-- The fields that are written as members of an object. -/
def written (limit : Nat) (ms : List (String × Value)) : Fields :=
  ⟨ms.map fun m => (m.1, m.2.toDoc), limit⟩

theorem keyed?_membersOf (ms : List (String × Value)) :
    keyed? (Value.membersOf ms) = some (ms.map fun m => (m.1, m.2.toDoc)) := by
  rw [keyed?, Value.membersOf_eq_map, List.mapM_map, mapM_eq_some, List.forall₂_map_right_iff,
    List.forall₂_same]
  intro m _
  simp [Quoted.text?_ofText]

theorem known?_written {names : List String} {ms : List (String × Value)}
    (hms : (ms.map (·.1)).Sublist names) (hnames : names.Nodup) :
    known? names (ms.map fun m => (m.1, m.2.toDoc)) =
      some (ms.map fun m => (m.1, m.2.toDoc)) := by
  have hkeys : (ms.map fun m => (m.1, m.2.toDoc)).map (·.1) = ms.map (·.1) := by
    rw [List.map_map]
    rfl
  have hfilter : (ms.map fun m => (m.1, m.2.toDoc)).filter (fun m => names.contains m.1) =
      ms.map fun m => (m.1, m.2.toDoc) := by
    rw [List.filter_eq_self]
    intro m hm
    exact List.contains_iff_mem.2 (hms.subset (hkeys ▸ List.mem_map_of_mem hm))
  unfold known?
  simp only [hfilter, hkeys, hnames.sublist hms, if_true]

/-- A record that is written as an object has the fields that were written. -/
theorem ofDoc?_object (names : List String) (ms : List (String × Value))
    (hms : (ms.map (·.1)).Sublist names) (hnames : names.Nodup) (limit : Nat) :
    ofDoc? names (limit + 1) (Value.object ms).toDoc = some (written limit ms) := by
  rw [Value.toDoc, ofDoc?, keyed?_membersOf, Option.bind_eq_bind, Option.bind_some,
    known?_written hms hnames]
  rfl

/-- So has a flat record, if every member is a free value. -/
theorem ofFlat?_object (names : List String) (ms : List (String × Value))
    (hms : (ms.map (·.1)).Sublist names) (hnames : names.Nodup) {limit : Nat}
    (hvalues : ∀ m ∈ ms, Rereads limit m.2) :
    ofFlat? names (limit + 1) (Value.object ms).toDoc = some (written limit ms) := by
  have hall : ((ms.map fun m => (m.1, m.2.toDoc)).all fun m =>
      (Reader.value limit m.2).isSome) = true := by
    rw [List.all_map, List.all_eq_true]
    intro m hm
    exact Option.isSome_of_eq_some (hvalues m hm)
  rw [Value.toDoc, ofFlat?, keyed?_membersOf, Option.bind_eq_bind, Option.bind_some, if_pos hall,
    known?_written hms hnames]
  rfl

theorem lookup_written (limit : Nat) (ms : List (String × Value)) (name : String) :
    (written limit ms).members.lookup name = (ms.lookup name).map Value.toDoc := by
  induction ms with
  | nil => rfl
  | cons m ms ih =>
    show List.lookup name ((m.1, m.2.toDoc) :: (written limit ms).members) = _
    rw [List.lookup_cons, ih]
    obtain ⟨key, v⟩ := m
    rw [List.lookup_cons]
    cases name == key <;> rfl

theorem required_written {α : Type} {limit : Nat} {ms : List (String × Value)} {name : String}
    {v : Value} {read : Reader α} {a : α} (hv : ms.lookup name = some v)
    (hread : read limit v.toDoc = some a) : (written limit ms).required name read = some a := by
  rw [required, lookup_written, hv]
  exact hread

theorem optional_written {α : Type} {limit : Nat} {ms : List (String × Value)} {name : String}
    {v : Value} {absent : α} {read : Reader α} {a : α} (hv : ms.lookup name = some v)
    (hread : read limit v.toDoc = some a) :
    (written limit ms).optional name absent read = some a := by
  rw [optional, lookup_written, hv]
  exact hread

theorem optional_unwritten {α : Type} {limit : Nat} {ms : List (String × Value)} {name : String}
    {absent : α} {read : Reader α} (hnone : ms.lookup name = none) :
    (written limit ms).optional name absent read = some absent := by
  rw [optional, lookup_written, hnone]
  rfl

theorem limit_of_ofDoc? {names : List String} {limit : Nat} {d : Doc} {fields : Fields}
    (h : ofDoc? names limit d = some fields) : limit = fields.limit + 1 := by
  unfold ofDoc? at h
  split at h
  · simp only [Option.bind_eq_bind, Option.bind_eq_some_iff] at h
    obtain ⟨_, _, _, _, h⟩ := h
    cases h
    rfl
  · split at h
    · cases h
      rfl
    · cases h
  · cases h

theorem limit_of_ofFlat? {names : List String} {limit : Nat} {d : Doc} {fields : Fields}
    (h : ofFlat? names limit d = some fields) : limit = fields.limit + 1 := by
  unfold ofFlat? at h
  split at h
  · obtain ⟨_, _, h⟩ := Option.bind_eq_some_iff.1 h
    split at h
    · obtain ⟨_, _, h⟩ := Option.bind_eq_some_iff.1 h
      cases h
      rfl
    · cases h
  · cases h

theorem required_eq_some {α : Type} {fields : Fields} {name : String} {read : Reader α} {a : α}
    (h : fields.required name read = some a) : ∃ d, read fields.limit d = some a := by
  obtain ⟨d, _, hd⟩ := Option.bind_eq_some_iff.1 h
  exact ⟨d, hd⟩

theorem optional_eq_some {α : Type} {fields : Fields} {name : String} {absent : α}
    {read : Reader α} {a : α} (h : fields.optional name absent read = some a) :
    a = absent ∨ ∃ d, read fields.limit d = some a := by
  unfold optional at h
  split at h
  · exact .inr ⟨_, h⟩
  · exact .inl (Option.some.inj h).symm

end Fields

end Quorate.Json
