/-
Proposals do not depend on the order of members in a document. Two texts that differ only in it are
the same to whoever reads them, and what is signed for them is the same.
-/
import Quorate.Ceremony.Basic
import Quorate.Proofs.Chain.Kept
import Quorate.Proofs.Json.Reordered
import Quorate.Proofs.Proposal.RoundTrip
import Quorate.Proofs.Sample

namespace Quorate

open Json

/-! ## Signatures -/

theorem blind_digest : Reader.Blind (Form.read : Reader Digest) := Reader.blind_textBy _

theorem blind_signature : Reader.Blind (Form.read : Reader Signature) :=
  Fields.blind_record fun f g h => by
    rw [h.required "r" blind_digest, h.required "s" blind_digest, h.required "v" blind_byte]

/-! ## Chains -/

theorem blind_selector : Reader.Blind (Form.read : Reader Selector) :=
  fun limit _ _ h => congrArg (Selector.mk <$> ·) (blind_count limit h)

/-- A key that stands for a selector is its digits. -/
theorem Selector.eq_ofText_of_ofKey? {k : Quoted} {chain : Selector} (h : ofKey? k = some chain) :
    k = .ofText (toString chain) := by
  obtain ⟨n, hn, h⟩ := Option.bind_eq_some_iff.1 h
  obtain ⟨m, hm, rfl⟩ := Option.map_eq_some_iff.1 h
  have hlt : m < UInt64.size := (Numeral.natBelow?_eq_some hm).2.2
  have hraw := raw_ofText_selector ⟨UInt64.ofNat m⟩
  rw [UInt64.toNat_ofNat_of_lt' hlt, ← Numeral.eq_digitBytes hn hm] at hraw
  exact (congrArg Quoted.mk hraw).symm

/-- While keys mean different texts, no selector comes twice. -/
theorem Selector.nodup_ofKey? {ms : List (Quoted × Doc)}
    (h : (ms.filterMap fun m => m.1.text?).Nodup) : (ms.filterMap fun m => ofKey? m.1).Nodup := by
  refine List.pairwise_filterMap.2 ((List.pairwise_filterMap.1 h).imp ?_)
  intro m n hmn chain hm chain' hn heq
  have hm := eq_ofText_of_ofKey? hm
  have hn := eq_ofText_of_ofKey? hn
  refine hmn _ (hm ▸ Quoted.text?_ofText _) _ (hn ▸ Quoted.text?_ofText _) (heq ▸ rfl)

theorem blind_byChain {α : Type} {read : Reader α} (h : read.Blind) : (byChain read).Blind := by
  intro limit d e hdoc
  obtain ⟨horder, hdistinct⟩ := hdoc
  cases limit with
  | zero =>
    have hnone : ∀ d, byChain read 0 d = none := fun d => by cases d <;> rfl
    rw [hnone, hnone]
  | succ limit =>
    cases hdistinct with
    | array _ =>
      obtain ⟨es, rfl, _⟩ := horder.exists_items
      rfl
    | object hkeys hdistinct =>
      obtain ⟨paired, ns, rfl, hpaired, hperm⟩ := horder.exists_members
      refine ofList_reordered (Selector.nodup_ofKey? hkeys) ?_ hperm
      refine ((List.forall₂_and_left _ _).2 ⟨hdistinct, hpaired⟩).imp fun m n hmn => ?_
      obtain ⟨hd, hmember⟩ := hmn
      cases hmember with
      | key k hdoc => exact ⟨rfl, h limit ⟨hdoc, hd⟩⟩
    | _ =>
      cases horder
      rfl

theorem blind_metadata : Reader.Blind (Form.read : Reader Metadata) :=
  Fields.blind_record fun f g h => by
    rw [h.required "startingOpCount" blind_count, h.required "mcmAddress" blind_string,
      h.optional "additionalFields" none (Reader.blind_nullable blind_free)]

/-! ## Operations -/

theorem blind_payload : payload.Blind := by
  intro limit d e h
  rw [payload, payload, Reader.blind_nullable Reader.blind_text limit h]

theorem blind_operation : Reader.Blind (Form.read : Reader Operation) :=
  Fields.blind_flat fun f g h => by
    unfold Call.ofFields? Labels.ofFields?
    rw [h.required "chainSelector" blind_selector, h.required "to" blind_string,
      h.optional "data" [] blind_payload, h.optional "additionalFields" .null blind_free,
      h.optional "contractType" "" blind_string, h.optional "tags" [] (blind_items blind_string)]

/-! ## Proposals -/

namespace Proposal

theorem blind_proposal : Reader.Blind (Form.read : Reader Proposal) :=
  Fields.blind_record fun f g h => by
    rw [h.required "version" blind_string, h.required "validUntil" blind_word,
      h.optional "signatures" [] (blind_items blind_signature),
      h.optional "overridePreviousRoot" false blind_bool,
      h.required "chainMetadata" (blind_byChain blind_metadata),
      h.required "description" blind_string,
      h.required "transactions" (blind_items blind_operation)]

/-- Bytes of documents that differ only in the order of members come to the same proposal or to the
same error. So whoever takes one of them in signs the same as whoever takes the other in, each at a
time of their own, as long as their encoders are the same functions. -/
theorem member_order_is_not_seen {bs cs : List UInt8} {d e : Doc}
    (hbs : Doc.ofBytes? bs = some d) (hcs : Doc.ofBytes? cs = some e) (horder : d.Reordered e)
    (hdistinct : d.Distinct) :
    (∀ now, ofBytes now bs = ofBytes now cs) ∧
    ∀ now now' p q, ofBytes now bs = .ok p → ofBytes now' cs = .ok q → p = q ∧
      ∀ (σ : Type) encoders, Ceremony.signingDigest <$> Ceremony.start (σ := σ) p encoders =
        Ceremony.signingDigest <$> Ceremony.start (σ := σ) q encoders := by
  have hread : Reader.ofBytes? (Form.read : Reader Proposal) bs =
      Reader.ofBytes? (Form.read : Reader Proposal) cs := by
    rw [Reader.ofBytes?_of_doc _ hbs, Reader.ofBytes?_of_doc _ hcs]
    exact blind_proposal nestingLimit ⟨horder, hdistinct⟩
  refine ⟨fun now => by rw [ofBytes, ofBytes, hread], fun now now' p q hp hq => ?_⟩
  have hp := (ofBytes_eq_ok.1 hp).1
  have hq := (ofBytes_eq_ok.1 hq).1
  obtain rfl : p = q := Option.some.inj (hp.symm.trans (hread.trans hq))
  exact ⟨rfl, fun _ _ => rfl⟩

/-- An operation whose extras have two members. -/
def plainCall : Value := .object [("chainSelector", .number (.int 9)), ("to", .string "0xa"),
  ("additionalFields", .object [("b", .null), ("a", .null)])]

def turnedCall : Value := .object [
  ("additionalFields", .object [("a", .null), ("b", .null)]), ("to", .string "0xa"),
  ("chainSelector", .number (.int 9))]

/-- A proposal with two chains, whose members are turned round in the other one. -/
def plainValue : Value := .object [("version", .string "v1"), ("validUntil", .number (.int 9)),
  ("chainMetadata", .object [("9", .array [.number (.int 7), .string ""]),
    ("10", .array [.number (.int 0), .string ""])]),
  ("description", .string "d"), ("transactions", .array [plainCall])]

def turnedValue : Value := .object [("transactions", .array [turnedCall]),
  ("description", .string "d"),
  ("chainMetadata", .object [("10", .array [.number (.int 0), .string ""]),
    ("9", .array [.number (.int 7), .string ""])]),
  ("validUntil", .number (.int 9)), ("version", .string "v1")]

theorem reordered_plainCall : plainCall.toDoc.Reordered turnedCall.toDoc :=
  .object (.cons (.key _ (.refl _)) (.cons (.key _ (.refl _))
    (.cons (.key _ (.object (List.forall₂_same.2 fun m _ => .key m.1 (.refl m.2))
      (List.reverse_perm _).symm)) .nil))) (List.reverse_perm _).symm

theorem reordered_plainValue : plainValue.toDoc.Reordered turnedValue.toDoc :=
  .object (.cons (.key _ (.refl _)) (.cons (.key _ (.refl _)) (.cons (.key _
    (.object (List.forall₂_same.2 fun m _ => .key m.1 (.refl m.2)) (List.reverse_perm _).symm))
      (.cons (.key _ (.refl _)) (.cons (.key _ (.array (.cons reordered_plainCall .nil))) .nil)))))
    (List.reverse_perm _).symm

def plainEncoders : Encoders := Table.ofList [(⟨9⟩, Sample.blind), (⟨10⟩, Sample.blind)]

theorem turned_members_are_not_seen : plainValue.toText ≠ turnedValue.toText ∧
    ∃ p q, ofText 0 plainValue.toText = .ok p ∧ ofText 1 turnedValue.toText = .ok q ∧ p = q ∧
      (Ceremony.start (σ := Unit) p plainEncoders).isOk = true ∧
      Ceremony.signingDigest <$> Ceremony.start (σ := Unit) p plainEncoders =
        Ceremony.signingDigest <$> Ceremony.start (σ := Unit) q plainEncoders := by
  have hplain := Value.ofText?_toText (v := plainValue) (by decide +kernel)
  have hturned := Value.ofText?_toText (v := turnedValue) (by decide +kernel)
  have hdistinct : plainValue.toDoc.Distinct := by decide +kernel
  obtain ⟨halike, hsigned⟩ :=
    member_order_is_not_seen hplain hturned reordered_plainValue hdistinct
  have hevaluated : (Form.read nestingLimit plainValue.toDoc : Option Proposal).any
      (fun p => p.validateAt 0 == .ok () && p.validateAt 1 == .ok () &&
        (Ceremony.start (σ := Unit) p plainEncoders).isOk) = true := by
    decide +kernel
  obtain ⟨p, hread, hp⟩ := (Option.any_eq_true _ _).1 hevaluated
  simp only [Bool.and_eq_true, beq_iff_eq, validateAt_eq_ok] at hp
  obtain ⟨⟨hnow, hlater⟩, hstart⟩ := hp
  have hparsed := (Reader.ofBytes?_of_doc Form.read hplain).trans hread
  have hp : ofText 0 plainValue.toText = .ok p := ofBytes_eq_ok.2 ⟨hparsed, hnow⟩
  have hq : ofText 1 turnedValue.toText = .ok p :=
    (halike 1).symm.trans (ofBytes_eq_ok.2 ⟨hparsed, hlater⟩)
  obtain ⟨heq, hdigest⟩ := hsigned 0 1 p p hp hq
  exact ⟨by decide +kernel, p, p, hp, hq, heq, hstart, hdigest Unit plainEncoders⟩

end Proposal

end Quorate
