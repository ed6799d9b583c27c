/-
Spellings of an address: its digits in lower case, in upper case, or in the case that the checksum
asks for, behind `0x`. No other text is read as the address. A text that is none of them for any
address is not one for its mark, its length, a character or its checksum, and this is found before
any digit is read.
-/
import Quorate.Address
import Quorate.Proofs.HexDigits
import Quorate.Proofs.Outcome
import Mathlib

namespace Quorate.Address

open Text

/-! ## Cases -/

section Cases

variable {cs : List Char}

theorem map_toLower_of_not_isUpper (h : ∀ c ∈ cs, c.isUpper = false) :
    cs.map Char.toLower = cs := by
  have hsame : cs.map Char.toLower = cs.map id :=
    List.map_congr_left fun c hc => Char.toLower_eq_of_not_isUpper (by simp [h c hc])
  rw [hsame, List.map_id]

theorem map_toUpper_of_not_isLower (h : ∀ c ∈ cs, c.isLower = false) :
    cs.map Char.toUpper = cs := by
  have hsame : cs.map Char.toUpper = cs.map id :=
    List.map_congr_left fun c hc => Char.toUpper_eq_of_not_isLower (by simp [h c hc])
  rw [hsame, List.map_id]

theorem map_toUpper_map_toLower : (cs.map Char.toLower).map Char.toUpper = cs.map Char.toUpper := by
  rw [List.map_map]
  exact List.map_congr_left fun c _ => c.toUpper_toLower_eq_toUpper

theorem map_toLower_map_toUpper : (cs.map Char.toUpper).map Char.toLower = cs.map Char.toLower := by
  rw [List.map_map]
  exact List.map_congr_left fun c _ => c.toLower_toUpper_eq_toLower

end Cases

/-! ## Checksums -/

theorem length_halves (bs : List UInt8) : (halves bs).length = 2 * bs.length := by
  simp [halves, List.length_flatMap, Nat.mul_comm]

/-- The digest has a half-byte for each of up to 64 digits. -/
theorem length_checksummed {lower : List Char} (h : lower.length ≤ 64) :
    (checksummed lower).length = lower.length := by
  rw [checksummed, List.length_zipWith, length_halves, Digest.length_bytes]
  omega

/-- The checksum changes the case of letters only. -/
theorem map_toLower_checksummed {lower : List Char} (h : lower.length ≤ 64)
    (hlower : lower.map Char.toLower = lower) : (checksummed lower).map Char.toLower = lower := by
  refine List.ext_getElem (by rw [List.length_map, length_checksummed h]) fun i hi hi' => ?_
  have hc : lower[i].toLower = lower[i] := by
    rw [← List.getElem_map Char.toLower (h := by rwa [List.length_map])]
    simp only [hlower]
  simp only [checksummed, List.getElem_map, List.getElem_zipWith]
  split
  · rw [Char.toLower_toUpper_eq_toLower, hc]
  · exact hc

/-! ## Digits that pass -/

theorem checkedBody_of_marked {s : String} {body : List Char} (h : s.toList = '0' :: 'x' :: body) :
    checkedBody s =
      if (utf8 body).length ≠ 40 then .error (.bodyLength (utf8 body).length)
      else if !body.all Hex.isDigit then .error (.badCharacter s)
      else if body.all (!·.isUpper) || body.all (!·.isLower) then .ok body
      else if checksumText (body.map Char.toLower) ≠ s then .error (.badChecksum s)
      else .ok body := by
  unfold checkedBody
  rw [h]
  rfl

/-- Digits of one case pass as they are, digits of both cases if they are the checksummed ones. -/
theorem checkedBody_eq_ok {s : String} {body : List Char} : checkedBody s = .ok body ↔
    s.toList = '0' :: 'x' :: body ∧ (utf8 body).length = 40 ∧ (∀ c ∈ body, Hex.isDigit c = true) ∧
      ((∀ c ∈ body, c.isUpper = false) ∨ (∀ c ∈ body, c.isLower = false) ∨
        checksumText (body.map Char.toLower) = s) := by
  constructor
  · intro h
    unfold checkedBody at h
    split at h
    · rename_i rest hmark
      dsimp only at h
      split at h
      · cases h
      split at h
      · cases h
      rename_i hsize hdigits
      rw [Bool.not_eq_true, Bool.not_eq_false', List.all_eq_true] at hdigits
      split at h
      · rename_i hcase
        cases h
        simp only [Bool.or_eq_true, List.all_eq_true, Bool.not_eq_true'] at hcase
        exact ⟨hmark, not_not.1 hsize, hdigits, hcase.imp_right .inl⟩
      split at h
      · cases h
      rename_i hsum
      cases h
      exact ⟨hmark, not_not.1 hsize, hdigits, .inr (.inr (not_not.1 hsum))⟩
    · cases h
  · rintro ⟨hmark, hsize, hdigits, hcase⟩
    rw [checkedBody_of_marked hmark, if_neg (not_not.2 hsize), List.all_eq_true.2 hdigits]
    by_cases hone : (body.all (!·.isUpper) || body.all (!·.isLower)) = true
    · rw [if_neg (by simp), if_pos hone]
    · have hsum : checksumText (body.map Char.toLower) = s := by
        simp only [Bool.or_eq_true, List.all_eq_true, Bool.not_eq_true', not_or] at hone
        rcases hcase with hupper | hlower | hsum
        · exact absurd hupper hone.1
        · exact absurd hlower hone.2
        · exact hsum
      rw [if_neg (by simp), if_neg hone, if_neg (not_not.2 hsum)]

/-! ## Spellings -/

/-- The three spellings of an address. -/
inductive Spells (a : Address) : String → Prop
  | lower : Spells a (String.ofList ('0' :: 'x' :: Hex.digits a.bytes))
  | upper : Spells a (String.ofList ('0' :: 'x' :: (Hex.digits a.bytes).map Char.toUpper))
  | checksum : Spells a a.toChecksum

theorem length_digits (a : Address) : (Hex.digits a.bytes).length = 40 := by
  rw [Hex.length_digits, a.length_bytes]

/-- Digits whose lower-case form is that of an address pass behind the mark. -/
theorem checkedBody_of_map_toLower {a : Address} {body : List Char}
    (hbody : body.map Char.toLower = Hex.digits a.bytes)
    (hcase : (∀ c ∈ body, c.isUpper = false) ∨ (∀ c ∈ body, c.isLower = false) ∨
      body = checksummed (Hex.digits a.bytes)) :
    checkedBody (String.ofList ('0' :: 'x' :: body)) = .ok body := by
  have hdigits := Hex.isDigit_of_map_toLower hbody
  refine checkedBody_eq_ok.2 ⟨String.toList_ofList, ?_, hdigits,
    hcase.imp_right (Or.imp_right fun hsum => ?_)⟩
  · rw [Hex.length_utf8_of_isDigit hdigits, ← List.length_map Char.toLower, hbody, length_digits]
  · rw [hbody, checksumText, ← hsum]

theorem length_checksummed_digits (a : Address) :
    (checksummed (Hex.digits a.bytes)).length = 40 := by
  rw [length_checksummed (by rw [length_digits]; decide), length_digits]

/-- All spellings have 42 characters. -/
theorem Spells.length {a : Address} {s : String} (h : Spells a s) : s.toList.length = 42 := by
  cases h with
  | lower => rw [String.toList_ofList, List.length_cons, List.length_cons, length_digits]
  | upper =>
    rw [String.toList_ofList, List.length_cons, List.length_cons, List.length_map, length_digits]
  | checksum =>
    rw [toChecksum, checksumText, String.toList_ofList, List.length_cons, List.length_cons,
      length_checksummed_digits]

theorem exists_checkedBody_iff {s : String} {a : Address} :
    (∃ body, checkedBody s = .ok body ∧ body.map Char.toLower = Hex.digits a.bytes) ↔
      Spells a s := by
  constructor
  · rintro ⟨body, hbody, hlower⟩
    obtain ⟨hmark, _, _, hcase⟩ := checkedBody_eq_ok.1 hbody
    have hs : s = String.ofList ('0' :: 'x' :: body) := by
      rw [← hmark, String.ofList_toList]
    rcases hcase with hupper | hlow | hsum
    · rw [map_toLower_of_not_isUpper hupper] at hlower
      rw [hs, hlower]
      exact .lower
    · have hupper : (Hex.digits a.bytes).map Char.toUpper = body := by
        rw [← hlower, map_toUpper_map_toLower, map_toUpper_of_not_isLower hlow]
      rw [hs, ← hupper]
      exact .upper
    · rw [hlower] at hsum
      exact hsum ▸ .checksum
  · intro h
    cases h with
    | lower =>
      have hlower := Hex.map_toLower_digits a.bytes
      refine ⟨_, checkedBody_of_map_toLower hlower (.inl fun c hc => ?_), hlower⟩
      rw [← hlower] at hc
      obtain ⟨d, _, rfl⟩ := List.mem_map.1 hc
      exact d.isUpper_toLower_eq_false
    | upper =>
      have hlower : ((Hex.digits a.bytes).map Char.toUpper).map Char.toLower =
          Hex.digits a.bytes := by
        rw [map_toLower_map_toUpper, Hex.map_toLower_digits]
      refine ⟨_, checkedBody_of_map_toLower hlower (.inr (.inl fun c hc => ?_)), hlower⟩
      obtain ⟨d, _, rfl⟩ := List.mem_map.1 hc
      exact d.isLower_toUpper_eq_false
    | checksum =>
      have hlower := map_toLower_checksummed (by rw [length_digits]; decide)
        (Hex.map_toLower_digits a.bytes)
      exact ⟨_, checkedBody_of_map_toLower hlower (.inr (.inr rfl)), hlower⟩

/-! ## Reading -/

/-- What passes stands for 20 bytes, so that nothing can fail any more. -/
theorem exists_address {s : String} {body : List Char} (h : checkedBody s = .ok body) :
    ∃ a : Address, body.map Char.toLower = Hex.digits a.bytes := by
  obtain ⟨_, hsize, hdigits, _⟩ := checkedBody_eq_ok.1 h
  rw [Hex.length_utf8_of_isDigit hdigits] at hsize
  obtain ⟨bs, hlength, hlower⟩ := Hex.exists_bytes (n := 20) hdigits hsize
  exact ⟨⟨bs, hlength⟩, hlower⟩

theorem parse_of_checkedBody {s : String} {body : List Char} {a : Address}
    (h : checkedBody s = .ok body) (hlower : body.map Char.toLower = Hex.digits a.bytes) :
    parse s = .ok a := by
  unfold parse
  rw [mapError_eq_ok.2 h, ok_bind, mapError_eq_ok.2 (Hex.decode_of_map_toLower hlower), ok_bind]
  exact dif_pos a.length_bytes

theorem parse_eq_ok {s : String} {a : Address} : parse s = .ok a ↔ Spells a s := by
  rw [← exists_checkedBody_iff]
  constructor
  · intro h
    obtain ⟨body, hbody, _⟩ := bind_eq_ok.1 h
    rw [mapError_eq_ok] at hbody
    obtain ⟨b, hlower⟩ := exists_address hbody
    obtain rfl := Except.ok.inj (h.symm.trans (parse_of_checkedBody hbody hlower))
    exact ⟨body, hbody, hlower⟩
  · rintro ⟨body, hbody, hlower⟩
    exact parse_of_checkedBody hbody hlower

theorem parse_eq_error {s : String} {e : FormatError} :
    parse s = .error e ↔ ∃ fault, checkedBody s = .error fault ∧ e = .address fault := by
  cases hbody : checkedBody s with
  | ok body =>
    obtain ⟨a, hlower⟩ := exists_address hbody
    rw [parse_of_checkedBody hbody hlower]
    simp
  | error fault =>
    have herror : parse s = .error (.address fault) := by
      unfold parse
      rw [hbody]
      rfl
    rw [herror]
    simp [eq_comm]

/-- A text is read as an address exactly if it is one of its three spellings, and every other text
is complained of as no address. Once the digits have passed, they are read as 20 bytes, and the
digest has a half-byte for each of them. -/
theorem address_has_three_spellings (s : String) :
    (∀ a, parse s = .ok a ↔ Spells a s) ∧
      ((∀ a, ¬Spells a s) → ∃ fault, parse s = .error (.address fault)) ∧
      (∀ e, parse s = .error e → ∃ fault, e = .address fault) ∧
      (∀ body, checkedBody s = .ok body →
        ∃ bs, Hex.decode (utf8 body) = .ok bs ∧ bs.length = 20) ∧
      ∀ body, s.toList = '0' :: 'x' :: body → (utf8 body).length = 40 → body.all Hex.isDigit →
        ∀ i < (body.map Char.toLower).length,
          i < (halves (keccak256 (utf8 (body.map Char.toLower))).bytes).length := by
  refine ⟨fun a => parse_eq_ok, fun hnone => ?_, fun e he => ?_, fun body hbody => ?_,
    fun body _ hsize hdigits i hi => ?_⟩
  · cases hs : parse s with
    | ok a => exact absurd (parse_eq_ok.1 hs) (hnone a)
    | error e =>
      obtain ⟨fault, _, rfl⟩ := parse_eq_error.1 hs
      exact ⟨fault, rfl⟩
  · obtain ⟨fault, _, rfl⟩ := parse_eq_error.1 he
    exact ⟨fault, rfl⟩
  · obtain ⟨a, hlower⟩ := exists_address hbody
    exact ⟨a.bytes, Hex.decode_of_map_toLower hlower, a.length_bytes⟩
  · rw [Hex.length_utf8_of_isDigit (List.all_eq_true.1 hdigits)] at hsize
    rw [List.length_map] at hi
    rw [length_halves, Digest.length_bytes]
    omega

/-- Forty zeros are the address of zero bytes. Twenty letters with an accent are as many bytes, but
no address. -/
theorem accented_letters_are_no_address :
    parse (String.ofList ('0' :: 'x' :: List.replicate 40 '0')) = .ok zero ∧
      (utf8 (List.replicate 20 'é')).length = 40 ∧
      ∃ fault, parse (String.ofList ('0' :: 'x' :: List.replicate 20 'é')) =
        .error (.address fault) := by
  refine ⟨((address_has_three_spellings _).1 zero).2 .lower, by decide,
    (address_has_three_spellings _).2.1 fun a h => ?_⟩
  have hlength := h.length
  rw [String.toList_ofList, List.length_cons, List.length_cons, List.length_replicate] at hlength
  cases hlength

end Quorate.Address
