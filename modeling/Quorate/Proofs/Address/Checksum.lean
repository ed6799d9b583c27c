/-
Checksums of written addresses. The digits of an address have one checksummed form, in whatever case
they are given and whether or not the mark stands before them, and this form is read as the address
whose bytes the digits stand for. So the form that is made of a text and the form that is written of
an address are the same.
-/
import Quorate.Proofs.Address.Spelling

namespace Quorate.Address

open Text

/-! ## Digits of an address -/

/-- Every spelling has the digits of the address behind its mark. -/
theorem Spells.map_toLower {a : Address} {s : String} (h : Spells a s) :
    (drop0x s.toList).map Char.toLower = Hex.digits a.bytes := by
  cases h with
  | lower =>
    rw [String.toList_ofList]
    exact Hex.map_toLower_digits a.bytes
  | upper =>
    rw [String.toList_ofList]
    show ((Hex.digits a.bytes).map Char.toUpper).map Char.toLower = _
    rw [map_toLower_map_toUpper, Hex.map_toLower_digits]
  | checksum =>
    rw [toChecksum, checksumText, String.toList_ofList]
    apply map_toLower_checksummed _ (Hex.map_toLower_digits a.bytes)
    rw [length_digits]
    decide

/-- Forty digits of any case are those of an address. -/
theorem exists_digits_iff {body : List Char} :
    (∃ a : Address, body.map Char.toLower = Hex.digits a.bytes) ↔
      body.length = 40 ∧ ∀ c ∈ body, Hex.isDigit c = true := by
  constructor
  · rintro ⟨a, ha⟩
    refine ⟨?_, Hex.isDigit_of_map_toLower ha⟩
    rw [← List.length_map Char.toLower, ha, length_digits]
  · rintro ⟨hlength, hdigits⟩
    obtain ⟨bs, hbs, hlower⟩ := Hex.exists_bytes (n := 20) hdigits hlength
    exact ⟨⟨bs, hbs⟩, hlower⟩

/-! ## The checksummed form -/

/-- The checksummed form is made of the digits of an address and of nothing else. -/
theorem checksumOf_eq_ok {s t : String} : checksumOf s = .ok t ↔
    ∃ a : Address, (drop0x s.toList).map Char.toLower = Hex.digits a.bytes ∧ t = a.toChecksum := by
  unfold checksumOf
  generalize drop0x s.toList = body
  dsimp only
  constructor
  · intro h
    split at h
    · rename_i hbody
      obtain ⟨hsize, hall⟩ := hbody
      have hdigits := List.all_eq_true.1 hall
      rw [Hex.length_utf8_of_isDigit hdigits] at hsize
      obtain ⟨a, ha⟩ := exists_digits_iff.2 ⟨hsize, hdigits⟩
      cases h
      exact ⟨a, ha, congrArg checksumText ha⟩
    · cases h
  · rintro ⟨a, ha, rfl⟩
    obtain ⟨hlength, hdigits⟩ := exists_digits_iff.1 ⟨a, ha⟩
    have hsize : (utf8 body).length = 40 := by rw [Hex.length_utf8_of_isDigit hdigits, hlength]
    rw [if_pos ⟨hsize, List.all_eq_true.2 hdigits⟩, ha]
    rfl

theorem exists_checksumOf_iff {s : String} : (∃ t, checksumOf s = .ok t) ↔
    (drop0x s.toList).length = 40 ∧ ∀ c ∈ drop0x s.toList, Hex.isDigit c = true := by
  rw [← exists_digits_iff]
  constructor
  · rintro ⟨t, ht⟩
    obtain ⟨a, ha, _⟩ := checksumOf_eq_ok.1 ht
    exact ⟨a, ha⟩
  · rintro ⟨a, ha⟩
    exact ⟨a.toChecksum, checksumOf_eq_ok.2 ⟨a, ha, rfl⟩⟩

/-- A text has a checksummed form exactly if it is forty digits of any case, behind a mark if need
be. The form is read as the address whose bytes the digits stand for, and it is what is written of
that address; it is its own checksummed form, and that of every text with the same digits in any
case. A text that is read as an address has the form that is written of the address. -/
theorem digits_have_one_checksummed_form (s : String) :
    ((∃ t, checksumOf s = .ok t) ↔
      (drop0x s.toList).length = 40 ∧ ∀ c ∈ drop0x s.toList, Hex.isDigit c = true) ∧
    (∀ t, checksumOf s = .ok t →
      (∃ a : Address, Hex.decode (utf8 (drop0x s.toList)) = .ok a.bytes ∧ parse t = .ok a ∧
        a.toChecksum = t) ∧
      checksumOf t = .ok t ∧
      ∀ s' : String, (drop0x s'.toList).map Char.toLower = (drop0x s.toList).map Char.toLower →
        checksumOf s' = .ok t) ∧
    ∀ a, parse s = .ok a → checksumOf s = .ok a.toChecksum := by
  refine ⟨exists_checksumOf_iff, fun t ht => ?_, fun a ha => ?_⟩
  · obtain ⟨a, ha, rfl⟩ := checksumOf_eq_ok.1 ht
    refine ⟨⟨a, Hex.decode_of_map_toLower ha, parse_eq_ok.2 .checksum, rfl⟩,
      checksumOf_eq_ok.2 ⟨a, Spells.checksum.map_toLower, rfl⟩, fun s' hs' => ?_⟩
    exact checksumOf_eq_ok.2 ⟨a, hs'.trans ha, rfl⟩
  · exact checksumOf_eq_ok.2 ⟨a, (parse_eq_ok.1 ha).map_toLower, rfl⟩

/-- Digits in mixed case without a mark and the same digits in capitals behind one have the same
form, which is read as one address. -/
theorem mixed_digits_have_one_checksummed_form :
    ∃ t a, checksumOf "7e5F4552091a69125D5dfcb7b8c2659029395bdF" = .ok t ∧
      checksumOf "0x7E5F4552091A69125D5DFCB7B8C2659029395BDF" = .ok t ∧
      parse t = .ok a ∧ a.toChecksum = t ∧ checksumOf t = .ok a.toChecksum := by
  obtain ⟨hok, hform, _⟩ :=
    digits_have_one_checksummed_form "7e5F4552091a69125D5dfcb7b8c2659029395bdF"
  obtain ⟨t, ht⟩ := hok.2 (by simp [drop0x, Hex.isDigit])
  obtain ⟨⟨a, _, ha, hwritten⟩, _, hvariants⟩ := hform t ht
  exact ⟨t, a, ht, hvariants _ (by simp [drop0x]), ha, hwritten,
    (digits_have_one_checksummed_form t).2.2 a ha⟩

end Quorate.Address
