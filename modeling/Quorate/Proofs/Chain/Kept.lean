/-
Signatures are read from what is written of them, and so are chains and operations that have been
read and whose free values have no floats. An operation is written with a list of tags also where
none was given, and takes the room for it.
-/
import Quorate.Chain.Form
import Quorate.Proofs.Digits
import Quorate.Proofs.Encodings
import Quorate.Proofs.Json.Kept

namespace Quorate

open Json

/-! ## Signatures -/

theorem rereads_digest (limit : Nat) (d : Digest) : Rereads limit d := by
  show (Quoted.ofText d.toHex).text? >>= (fun s => (Digest.parse s).toOption) = some d
  rw [Quoted.text?_ofText, Option.bind_eq_bind, Option.bind_some, Digest.parse_toHex]
  rfl

theorem rereads_signature (limit : Nat) (sig : Signature) : Rereads (limit + 1) sig := by
  have hfields := Fields.ofDoc?_object ["r", "s", "v"] [("r", Form.write sig.r),
    ("s", Form.write sig.s), ("v", Form.write sig.v)] (List.Sublist.refl _) (by decide) limit
  refine (congrArg (Option.bind · _) hfields).trans ?_
  rw [Option.bind_some, Fields.required_written rfl (rereads_digest limit sig.r),
    Fields.required_written rfl (rereads_digest limit sig.s),
    Fields.required_written rfl (rereads_byte limit sig.v)]
  rfl

/-! ## Chains -/

theorem rereads_selector (limit : Nat) (chain : Selector) : Rereads limit chain := by
  show Selector.mk <$> Reader.count limit (Form.write chain.id).toDoc = some chain
  rw [show Reader.count limit (Form.write chain.id).toDoc = some chain.id from
    rereads_count limit chain.id]
  rfl

theorem escaped_of_isDigit {c : Char} (h : c.isDigit = true) : escaped c = [c] := by
  obtain ⟨hlow, hhigh⟩ := toNat_of_isDigit h
  have hne : ∀ d : Char, d.toNat < 48 ∨ 57 < d.toNat → c ≠ d := by
    rintro d hd rfl
    omega
  unfold escaped
  rw [if_neg (hne _ (by decide)), if_neg (hne _ (by decide)), if_neg (hne _ (by decide)),
    if_neg (hne _ (by decide)), if_neg (hne _ (by decide)), if_neg (hne _ (by decide)),
    if_neg (hne _ (by decide)), if_neg (by omega)]

/-- A selector stands as a key in its digits. -/
theorem raw_ofText_selector (chain : Selector) :
    (Quoted.ofText (toString chain)).raw = Numeral.digitBytes chain.id.toNat := by
  have hdigits : (Nat.toDigits 10 chain.id.toNat).flatMap escaped =
      Nat.toDigits 10 chain.id.toNat := by
    rw [List.flatMap_congr fun c hc => escaped_of_isDigit (isDigit_of_mem_digits hc)]
    exact List.flatMap_singleton' _
  show Text.utf8 ((toString chain).toList.flatMap escaped) = _
  rw [Selector.toList_toString, hdigits]
  rfl

theorem Selector.ofKey?_ofText (chain : Selector) :
    Selector.ofKey? (.ofText (toString chain)) = some chain := by
  rw [ofKey?, raw_ofText_selector, ← Numeral.writeInt_ofNat, Numeral.ofBytes?_writeInt,
    Option.bind_eq_bind, Option.bind_some, Numeral.natBelow?_ofInt chain.id.toNat_lt,
    Option.map_eq_map, Option.map_some, UInt64.ofNat_toNat]

theorem byChain_written {α : Type} [Form α] {limit : Nat} {t : Table Selector α}
    (h : ∀ e ∈ t.entries, Rereads limit e.2) :
    byChain Form.read (limit + 1)
      (Value.object (t.entries.map fun e => (toString e.1, Form.write e.2))).toDoc = some t := by
  have hentries : ((t.entries.map fun e => (toString e.1, Form.write e.2)).map fun m =>
        (Quoted.ofText m.1, m.2.toDoc)).mapM
      (fun m => do some (← Selector.ofKey? m.1, ← Form.read limit m.2)) = some t.entries := by
    rw [List.map_map]
    refine mapM_map_eq_some fun e he => ?_
    show (Selector.ofKey? (.ofText (toString e.1))).bind _ = _
    rw [Selector.ofKey?_ofText, Option.bind_some]
    show (Form.read limit (Form.write e.2).toDoc).bind _ = _
    rw [h e he]
    rfl
  rw [Value.toDoc, Value.membersOf_eq_map, byChain, hentries, Option.map_eq_map, Option.map_some,
    Table.ofList_entries]

/-- What stands under the keys of an object has been read from its members. -/
theorem exists_of_byChain {α : Type} {read : Reader α} {limit : Nat} {d : Doc}
    {t : Table Selector α} (h : byChain read (limit + 1) d = some t) :
    ∀ e ∈ t.entries, ∃ d, read limit d = some e.2 := by
  match d, h with
  | .object members, h =>
    obtain ⟨l, hl, rfl⟩ := Option.map_eq_some_iff.1 h
    intro e he
    obtain ⟨m, _, hm⟩ := exists_of_mapM_eq_some hl (Table.mem_of_mem_ofList he)
    obtain ⟨chain, _, hm⟩ := Option.bind_eq_some_iff.1 hm
    obtain ⟨a, ha, hm⟩ := Option.bind_eq_some_iff.1 hm
    cases hm
    exact ⟨m.2, ha⟩

theorem keeps_byChain {α : Type} [Form α] {least limit : Nat} {P : α → Prop}
    (h : Keeps α least P) (hlimit : least + 1 ≤ limit) {d : Doc} {t : Table Selector α}
    (hread : byChain Form.read limit d = some t) (hP : ∀ e ∈ t.entries, P e.2) :
    byChain Form.read limit
      (Value.object (t.entries.map fun e => (toString e.1, Form.write e.2))).toDoc = some t := by
  cases limit with
  | zero => omega
  | succ limit =>
    refine byChain_written fun e he => ?_
    obtain ⟨d, hd⟩ := exists_of_byChain hread e he
    exact h limit d e.2 (by omega) hd (hP e he)

theorem rereads_metadata {limit : Nat} {m : Metadata}
    (h : ∀ v, m.extras = some v → v.toDoc ≠ .null ∧ Rereads limit v) : Rereads (limit + 1) m := by
  obtain ⟨count, contract, extras⟩ := m
  have hfields := Fields.ofDoc?_object ["startingOpCount", "mcmAddress", "additionalFields"]
    ([("startingOpCount", Form.write count), ("mcmAddress", Form.write contract)] ++
      present "additionalFields" extras)
    (((map_present_sublist _ extras).cons_cons _).cons_cons _) (by decide) limit
  refine (congrArg (Option.bind · _) hfields).trans ?_
  rw [Option.bind_some, Fields.required_written rfl (rereads_count limit count),
    Fields.required_written rfl (rereads_string limit contract)]
  -- extras that are absent are not written, so that no null is taken for them
  cases extras with
  | none =>
    rw [Fields.optional_unwritten rfl]
    rfl
  | some v =>
    obtain ⟨hdoc, hv⟩ := h v rfl
    rw [Fields.optional_written rfl (rereads_nullable hdoc hv)]
    rfl

theorem keeps_metadata : Keeps Metadata 1 fun m => ∀ v, m.extras = some v → v.Whole := by
  intro limit d m _ hread hwhole
  obtain ⟨fields, hfields, hread⟩ := Option.bind_eq_some_iff.1 hread
  obtain ⟨count, _, hread⟩ := Option.bind_eq_some_iff.1 hread
  obtain ⟨contract, _, hread⟩ := Option.bind_eq_some_iff.1 hread
  obtain ⟨extras, hextras, hread⟩ := Option.bind_eq_some_iff.1 hread
  cases hread
  rw [Fields.limit_of_ofDoc? hfields]
  refine rereads_metadata fun v hv => ?_
  cases hv
  rcases Fields.optional_eq_some hextras with hnone | ⟨e, he⟩
  · cases hnone
  · obtain ⟨hne, hv⟩ := nullable_eq_some_some he
    have hwhole := hwhole v rfl
    exact ⟨Value.toDoc_ne_null hwhole (Value.ne_null_of_ofDoc? hv hne),
      keeps_value _ e v (Nat.zero_le _) hv hwhole⟩

/-! ## Operations -/

theorem payload_written (limit : Nat) (data : List UInt8) :
    payload limit (Value.string (String.ofList (Base64.encode data))).toDoc = some data := by
  have htext : Reader.nullable Reader.text limit
      (Value.string (String.ofList (Base64.encode data))).toDoc =
        some (some (String.ofList (Base64.encode data))) :=
    rereads_nullable nofun (rereads_string limit _)
  rw [payload, htext]
  show Base64.decode? (String.ofList (Base64.encode data)).toList = some data
  rw [String.toList_ofList, Base64.decode?_encode]

/-- Every member of an operation is a free value. -/
theorem rereads_members {limit : Nat} {op : Operation} (h : Rereads (limit + 1) op.call.extras) :
    ∀ m ∈ ("chainSelector", Form.write op.chain) :: op.call.members, Rereads (limit + 1) m.2 := by
  have htags : Rereads (limit + 1) (Form.write op.call.labels.tags) := by
    refine rereads_array fun v hv => ?_
    obtain ⟨tag, _, rfl⟩ := List.mem_map.1 hv
    exact rereads_text limit tag
  simp only [Call.members, Labels.members, List.cons_append, List.nil_append, List.forall_mem_cons]
  exact ⟨rereads_natural op.chain.id.toNat_lt _, rereads_text _ _, rereads_text _ _, h,
    rereads_text _ _, htags, List.forall_mem_nil _⟩

theorem rereads_operation {limit : Nat} {op : Operation} (h : Rereads (limit + 1) op.call.extras) :
    Rereads (limit + 2) op := by
  have hfields := Fields.ofFlat?_object ("chainSelector" :: Call.names)
    (("chainSelector", Form.write op.chain) :: op.call.members) (List.Sublist.refl _) (by decide)
    (rereads_members h)
  have htags : Rereads (limit + 1) op.call.labels.tags :=
    rereads_list fun tag _ => rereads_string limit tag
  refine (congrArg (Option.bind · _) hfields).trans ?_
  rw [Option.bind_some, Fields.required_written rfl (rereads_selector (limit + 1) op.chain),
    Call.ofFields?, Labels.ofFields?, Fields.required_written rfl (rereads_string _ op.call.target),
    Fields.optional_written rfl (payload_written _ op.call.data), Fields.optional_written rfl h,
    Fields.optional_written rfl (rereads_string _ op.call.labels.contractType),
    Fields.optional_written rfl htags]
  rfl

theorem keeps_operation : Keeps Operation 2 fun op => op.call.extras.Whole := by
  intro limit d op hlimit hread hwhole
  obtain ⟨fields, hfields, hread⟩ := Option.bind_eq_some_iff.1 hread
  obtain ⟨chain, _, hread⟩ := Option.bind_eq_some_iff.1 hread
  obtain ⟨call, hcall, hread⟩ := Option.bind_eq_some_iff.1 hread
  cases hread
  obtain ⟨target, _, hcall⟩ := Option.bind_eq_some_iff.1 hcall
  obtain ⟨data, _, hcall⟩ := Option.bind_eq_some_iff.1 hcall
  obtain ⟨extras, hextras, hcall⟩ := Option.bind_eq_some_iff.1 hcall
  obtain ⟨labels, _, hcall⟩ := Option.bind_eq_some_iff.1 hcall
  cases hcall
  -- extras that are left out are a null, which is written and read as any other value
  have hfree : Rereads fields.limit extras := by
    rcases Fields.optional_eq_some hextras with rfl | ⟨e, he⟩
    · rfl
    · exact keeps_value _ e extras (Nat.zero_le _) he hwhole
  have heq := Fields.limit_of_ofFlat? hfields
  obtain ⟨n, rfl⟩ : ∃ n, limit = n + 2 := ⟨limit - 2, by omega⟩
  have hn : fields.limit = n + 1 := by omega
  rw [hn] at hfree
  exact rereads_operation hfree

/-! ## Without floats -/

theorem whole_signature (sig : Signature) : (Form.write sig).Whole := by
  refine .object ?_
  simp only [List.forall_mem_cons]
  exact ⟨.string _, .string _, .int _, List.forall_mem_nil _⟩

theorem whole_metadata {m : Metadata} (h : ∀ v, m.extras = some v → v.Whole) :
    (Form.write m).Whole := by
  refine .object fun e he => ?_
  rcases List.mem_append.1 he with he | he
  · rcases List.mem_pair.1 he with rfl | rfl
    · exact .int _
    · exact .string _
  · unfold present at he
    split at he
    · rename_i v hv
      rw [List.mem_singleton.1 he]
      exact h v hv
    · cases he

theorem whole_operation {op : Operation} (h : op.call.extras.Whole) : (Form.write op).Whole := by
  refine .object ?_
  simp only [Call.members, Labels.members, List.cons_append, List.nil_append, List.forall_mem_cons]
  exact ⟨.int _, .string _, .string _, h, .string _, whole_list fun tag _ => .string tag,
    List.forall_mem_nil _⟩

end Quorate
