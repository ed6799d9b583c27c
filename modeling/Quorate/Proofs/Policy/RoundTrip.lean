/-
Policies go through documents unchanged, node by node: a policy is read from either form that is
written of it exactly if no more containers are nested in the form than a document may have. The
members of the innermost groups are the deepest containers, and they are written even where there
are none.
-/
import Quorate.Policy.Form
import Quorate.Proofs.Address.Spelling
import Quorate.Proofs.Json.Kept
import Quorate.Proofs.Policy.Tree

namespace Quorate

namespace Json.Value

/-! ## Nested containers -/

mutual

/-- How many containers are nested in a value, the value itself included. -/
def depth : Value → Nat
  | null | bool _ | number _ | string _ => 0
  | array items => depthOfItems items + 1
  | object members => depthOfMembers members + 1

/-- How many containers are nested in one of the items. -/
def depthOfItems : List Value → Nat
  | [] => 0
  | v :: vs => max (depth v) (depthOfItems vs)

/-- How many containers are nested in one of the members. -/
def depthOfMembers : List (String × Value) → Nat
  | [] => 0
  | (_, v) :: ms => max (depth v) (depthOfMembers ms)

end

theorem depthOfItems_le {n : Nat} : ∀ {vs : List Value},
    depthOfItems vs ≤ n ↔ ∀ v ∈ vs, v.depth ≤ n
  | [] => by simp [depthOfItems]
  | v :: vs => by rw [depthOfItems, max_le_iff, depthOfItems_le, List.forall_mem_cons]

end Json.Value

namespace Policy

open Json

/-! ## What is written of a policy -/

theorem toValues_eq_map (gs : List Policy) : toValues gs = gs.map toValue := by
  induction gs with
  | nil => rfl
  | cons g gs ih => rw [toValues, ih, List.map_cons]

theorem whole_policy (p : Policy) : p.toValue.Whole := by
  induction p using tree_induction with
  | step q ms gs ih =>
    rw [toValue]
    apply Value.Whole.object
    simp only [List.forall_mem_cons]
    refine ⟨.int _, whole_list fun m _ => .string _, .array fun v hv => ?_, List.forall_mem_nil _⟩
    rw [toValues_eq_map] at hv
    obtain ⟨g, hg, rfl⟩ := List.mem_map.1 hv
    exact ih g hg

/-- The members of a policy are a container in it, and its groups lie in a second one. -/
theorem depth_toValue (q : UInt8) (ms : List Address) (gs : List Policy) :
    (node q ms gs).toValue.depth = Value.depthOfItems (toValues gs) + 2 := by
  have hquorum : (Form.write q).depth = 0 := rfl
  have hmembers : (Form.write ms).depth = 1 := by
    have hflat : Value.depthOfItems (ms.map Form.write) ≤ 0 := by
      apply Value.depthOfItems_le.2
      intro v hv
      obtain ⟨m, _, rfl⟩ := List.mem_map.1 hv
      exact Nat.le_refl 0
    show Value.depthOfItems (ms.map Form.write) + 1 = 1
    omega
  rw [toValue]
  simp only [Value.depth, Value.depthOfMembers, hquorum, hmembers]
  omega

theorem depth_toValue_le {q : UInt8} {ms : List Address} {gs : List Policy} {n : Nat} :
    (node q ms gs).toValue.depth ≤ n + 2 ↔ ∀ g ∈ gs, g.toValue.depth ≤ n := by
  rw [depth_toValue, Nat.add_le_add_iff_right, Value.depthOfItems_le, toValues_eq_map,
    List.forall_mem_map]

/-! ## Reading -/

theorem rereads_address (limit : Nat) (a : Address) : Rereads limit a := by
  show (Quoted.ofText a.toChecksum).text? >>= (fun s => (Address.parse s).toOption) = some a
  rw [Quoted.text?_ofText, Option.bind_eq_bind, Option.bind_some, Address.parse_eq_ok.2 .checksum]
  rfl

/-- A written policy is read as its quorum with what is read of its members and of its groups. -/
theorem reader_node (depth limit : Nat) (q : UInt8) (ms : List Address) (gs : List Policy) :
    reader (depth + 1) (limit + 1) (node q ms gs).toValue.toDoc =
      (Reader.list Form.read limit (Form.write ms).toDoc).bind fun members =>
        (Reader.list (reader depth) limit (.array (gs.map fun g => g.toValue.toDoc))).bind
          fun groups => some (node q members groups) := by
  have hfields := Fields.ofDoc?_object ["quorum", "signers", "groupSigners"]
    [("quorum", Form.write q), ("signers", Form.write ms), ("groupSigners", .array (toValues gs))]
    (List.Sublist.refl ["quorum", "signers", "groupSigners"]) (by decide) limit
  have hgroups : (Value.array (toValues gs)).toDoc = .array (gs.map fun g => g.toValue.toDoc) := by
    rw [Value.toDoc, Value.docsOf_eq_map, toValues_eq_map, List.map_map]
    rfl
  rw [toValue, reader, ← hgroups]
  dsimp only
  rw [hfields, Option.bind_eq_bind, Option.bind_some,
    Fields.required_written rfl (rereads_byte limit q)]
  rfl

/-- A policy is read back if there is room for its containers. -/
theorem reader_toDoc {p : Policy} : ∀ {depth limit : Nat}, p.toValue.depth ≤ limit →
    limit ≤ depth → reader depth limit p.toValue.toDoc = some p := by
  induction p using tree_induction with
  | step q ms gs ih =>
    intro depth limit hroom hlimit
    rw [depth_toValue] at hroom
    obtain ⟨n, rfl⟩ : ∃ n, limit = n + 2 := ⟨limit - 2, by omega⟩
    obtain ⟨depth, rfl⟩ : ∃ d, depth = d + 1 := ⟨depth - 1, by omega⟩
    rw [← depth_toValue q ms gs, depth_toValue_le] at hroom
    have hmembers : Reader.list Form.read (n + 1) (Form.write ms).toDoc = some ms :=
      rereads_list fun m _ => rereads_address n m
    have hgroups : (gs.map fun g => g.toValue.toDoc).mapM (reader depth n) = some gs :=
      mapM_map_eq_some fun g hg => ih g hg (hroom g hg) (by omega)
    rw [reader_node, hmembers, Option.bind_some, Reader.list, hgroups, Option.bind_some]

/-- A policy of which anything is read back has room for its containers. -/
theorem depth_le_of_reader {p : Policy} : ∀ {depth limit : Nat} {r : Policy},
    reader depth limit p.toValue.toDoc = some r → p.toValue.depth ≤ limit := by
  induction p using tree_induction with
  | step q ms gs ih =>
    intro depth limit r h
    cases depth with
    | zero => cases h
    | succ depth =>
      cases limit with
      | zero => cases h
      | succ limit =>
        rw [reader_node] at h
        obtain ⟨members, hmembers, h⟩ := Option.bind_eq_some_iff.1 h
        obtain ⟨groups, hgroups, _⟩ := Option.bind_eq_some_iff.1 h
        cases limit with
        | zero => cases hmembers
        | succ n =>
          rw [depth_toValue_le]
          intro g hg
          obtain ⟨r, hr⟩ := exists_of_mem_of_mapM_eq_some hgroups (List.mem_map_of_mem hg)
          exact ih g hg hr

theorem read_toDoc_iff {p r : Policy} {limit : Nat} :
    (Form.read limit p.toValue.toDoc : Option Policy) = some r ↔ p.toValue.depth ≤ limit ∧ p = r := by
  constructor
  · intro h
    have hroom := depth_le_of_reader h
    exact ⟨hroom, Option.some.inj ((reader_toDoc hroom (Nat.le_refl limit)).symm.trans h)⟩
  · rintro ⟨hroom, rfl⟩
    exact reader_toDoc hroom (Nat.le_refl limit)

/-! ## Both forms -/

theorem parse?_written_iff {p r : Policy} {t : String} (ht : t ∈ [toText p, toPretty p]) :
    parse? Policy t = some r ↔ p.toValue.depth ≤ nestingLimit ∧ p = r := by
  have hdoc : Doc.ofText? t = some p.toValue.toDoc := by
    rcases List.mem_pair.1 ht with rfl | rfl
    · exact Value.ofText?_toText (whole_policy p)
    · exact Value.ofText?_toPretty (whole_policy p)
  unfold parse? Reader.ofText?
  rw [hdoc, Option.bind_eq_bind, Option.bind_some]
  exact read_toDoc_iff

/-- From either form that is written of a policy the same policy is read, node by node, exactly if no
more than 127 containers are nested in it, and otherwise nothing is. What is read is written in the
same way, has the same faults and the same members, and authorizes the same signers with the same
strangers among them. -/
theorem policy_round_trip (p : Policy) : ∀ t ∈ [toText p, toPretty p],
    (parse? Policy t = some p ↔ (Form.write p).depth ≤ 127) ∧
    ∀ r, parse? Policy t = some r → r = p ∧ toText r = toText p ∧ toPretty r = toPretty p ∧
      r.validate = p.validate ∧ r.allMembers = p.allMembers ∧
      ∀ signed, r.authorizes signed = p.authorizes signed := by
  intro t ht
  refine ⟨?_, fun r hr => ?_⟩
  · rw [parse?_written_iff ht]
    exact and_iff_left rfl
  · obtain ⟨_, rfl⟩ := (parse?_written_iff ht).1 hr
    exact ⟨rfl, rfl, rfl, rfl, rfl, fun _ => rfl⟩

/-- Policies in one another, each with the same member twice. -/
def nested : Nat → Policy
  | 0 => node 0 [] []
  | n + 1 => node 2 [.zero, .zero] [nested n]

/-- Of policies without members in the middle, 63 may be nested, but not 64. -/
theorem nested_policies_are_read_back : parse? Policy (toText (nested 62)) = some (nested 62) ∧
    parse? Policy (toText (nested 63)) ≠ some (nested 63) ∧
    ∀ r, parse? Policy (toPretty (nested 62)) = some r → r = nested 62 := by
  refine ⟨?_, ?_, fun r hr => ?_⟩
  · apply (policy_round_trip (nested 62) _ (List.mem_cons_self ..)).1.2
    decide +kernel
  · intro h
    have := (policy_round_trip (nested 63) _ (List.mem_cons_self ..)).1.1 h
    exact absurd this (by decide +kernel)
  · exact ((policy_round_trip (nested 62) _ (List.mem_cons_of_mem _ (List.mem_cons_self ..))).2 r hr).1

end Policy

end Quorate
