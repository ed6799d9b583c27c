/-
Numerals of a digest. A text of up to 64 digits, behind the mark or without it, is read as the digest
that holds the number of the numeral, however many digits it has. A text of more than 64 bytes is
refused for its length; any other text has a character that is no digit and is refused for it, even
where the zeros that make up 64 characters leave more than 64 bytes.
-/
import Quorate.Proofs.Encodings
import Quorate.Proofs.Outcome

namespace Quorate

open Text

namespace Hex

/-! ## The number of a numeral -/

/-- The number that a digit of either case stands for. -/
def digitValue (c : Char) : Nat := if c.isDigit then c.toNat - 48 else c.toLower.toNat - 87

/-- The number that digits stand for, the first being the most significant. -/
def number (cs : List Char) : Nat := cs.foldl (fun n c => n * 16 + digitValue c) 0

theorem digitValue_ofNat : ∀ (n : Fin 128) (m : Fin 16), (Char.ofNat n.val).toLower = digit m.val →
    digitValue (Char.ofNat n.val) = m.val := by
  decide +kernel

theorem digitValue_of_toLower {c : Char} {m : Nat} (hm : m < 16) (h : c.toLower = digit m) :
    digitValue c = m := by
  have hascii := toNat_lt_of_toLower (h ▸ toNat_digit_lt ⟨m, hm⟩)
  have htable := digitValue_ofNat ⟨c.toNat, hascii⟩ ⟨m, hm⟩
  rw [Char.ofNat_toNat] at htable
  exact htable h

/-- Two digits carry a number on as the byte does whose digits they are. -/
theorem foldl_digitValue : ∀ {bs : List UInt8} {cs : List Char} (n : Nat),
    cs.map Char.toLower = digits bs →
      cs.foldl (fun n c => n * 16 + digitValue c) n = bs.foldl (fun n b => n * 256 + b.toNat) n
  | [], cs, n, h => by
    obtain rfl := List.map_eq_nil_iff.1 h
    rfl
  | b :: bs, cs, n, h => by
    have hb := b.toNat_lt
    obtain ⟨c, cs, rfl, hc, h⟩ := List.map_eq_cons_iff.1 h
    obtain ⟨d, cs, rfl, hd, h⟩ := List.map_eq_cons_iff.1 h
    have hbyte : (n * 16 + b.toNat / 16) * 16 + b.toNat % 16 = n * 256 + b.toNat := by omega
    rw [List.foldl_cons, List.foldl_cons, List.foldl_cons, digitValue_of_toLower (by omega) hc,
      digitValue_of_toLower (by omega) hd, hbyte]
    exact foldl_digitValue _ h

theorem number_eq_decode {cs : List Char} {bs : List UInt8} (h : cs.map Char.toLower = digits bs) :
    number cs = BigEndian.decode bs := foldl_digitValue 0 h

/-- Zeros in front add nothing. -/
theorem number_replicate_append (k : Nat) (cs : List Char) :
    number (List.replicate k '0' ++ cs) = number cs := by
  induction k with
  | zero => rfl
  | succ k ih =>
    rw [List.replicate_succ, List.cons_append, number, List.foldl_cons]
    exact ih

end Hex

namespace Digest

/-! ## Padding -/

/-- The characters of a text behind as many zeros as are missing from 64. -/
def padded (body : List Char) : List Char := List.replicate (64 - body.length) '0' ++ body

theorem isDigit_padded {body : List Char} :
    (∀ c ∈ padded body, Hex.isDigit c = true) ↔ ∀ c ∈ body, Hex.isDigit c = true := by
  constructor
  · intro h c hc
    exact h c (List.mem_append_right _ hc)
  · intro h c hc
    rcases List.mem_append.1 hc with hc | hc
    · rw [List.eq_of_mem_replicate hc]
      rfl
    · exact h c hc

theorem length_padded {body : List Char} (h : body.length ≤ 64) : (padded body).length = 64 := by
  rw [padded, List.length_append, List.length_replicate]
  omega

/-- Up to 64 digits stand for the bytes of a digest when they are padded. -/
theorem exists_padded {body : List Char} (hlength : body.length ≤ 64)
    (hdigits : ∀ c ∈ body, Hex.isDigit c = true) :
    ∃ d : Digest, (padded body).map Char.toLower = Hex.digits d.bytes := by
  obtain ⟨bs, hbs, hlower⟩ := Hex.exists_bytes (n := 32) (isDigit_padded.2 hdigits)
    (length_padded hlength)
  exact ⟨⟨bs, hbs⟩, hlower⟩

/-! ## Reading -/

theorem parse_eq (s : String) : parse s =
    if 64 < (utf8 (drop0x s.toList)).length then
      .error (.length 32 (((utf8 (drop0x s.toList)).length + 1) / 2))
    else (Hex.decode (utf8 (padded (drop0x s.toList)))).mapError .hex >>= ofBytes := by
  unfold parse padded
  dsimp only
  split
  · rfl
  · rfl

theorem parse_of_long {s : String} (h : 64 < (utf8 (drop0x s.toList)).length) :
    parse s = .error (.length 32 (((utf8 (drop0x s.toList)).length + 1) / 2)) := by
  rw [parse_eq, if_pos h]

/-- Whether characters are a numeral of a digest: up to 64 digits, or none at all. -/
def IsNumeral (body : List Char) : Prop := body.length ≤ 64 ∧ ∀ c ∈ body, Hex.isDigit c = true

/-- A numeral has no more bytes than characters. -/
theorem IsNumeral.length_utf8_le {body : List Char} (h : IsNumeral body) :
    (utf8 body).length ≤ 64 := by
  rw [Hex.length_utf8_of_isDigit h.2]
  exact h.1

theorem isNumeral_of_short {body : List Char} (hsize : (utf8 body).length ≤ 64)
    (hdigits : ∀ c ∈ body, Hex.isDigit c = true) : IsNumeral body := by
  rw [Hex.length_utf8_of_isDigit hdigits] at hsize
  exact ⟨hsize, hdigits⟩

/-- A numeral is read as the digest that holds its number. -/
theorem exists_parse {s : String} (h : IsNumeral (drop0x s.toList)) :
    ∃ d, parse s = .ok d ∧ d.toNat = Hex.number (drop0x s.toList) := by
  obtain ⟨d, hd⟩ := exists_padded h.1 h.2
  refine ⟨d, ?_, ?_⟩
  · rw [parse_eq, if_neg (Nat.not_lt.2 h.length_utf8_le),
      mapError_eq_ok.2 (Hex.decode_of_map_toLower hd), ok_bind]
    exact dif_pos d.length_bytes
  · rw [← Hex.number_replicate_append (64 - (drop0x s.toList).length)]
    exact (Hex.number_eq_decode hd).symm

/-- What is neither too long nor a numeral is refused for a character that is no digit. -/
theorem exists_parse_eq_hex {s : String} (hsize : (utf8 (drop0x s.toList)).length ≤ 64)
    (h : ¬IsNumeral (drop0x s.toList)) : ∃ fault, parse s = .error (.hex fault) := by
  cases hdecode : Hex.decode (utf8 (padded (drop0x s.toList))) with
  | ok bs =>
    have hdigits := isDigit_padded.1 (Hex.isDigit_of_decode hdecode)
    exact absurd (isNumeral_of_short hsize hdigits) h
  | error fault =>
    refine ⟨fault, ?_⟩
    rw [parse_eq, if_neg (Nat.not_lt.2 hsize), hdecode]
    rfl

/-- The three things that can become of a text. -/
theorem parse_cases (s : String) :
    (64 < (utf8 (drop0x s.toList)).length ∧ ¬IsNumeral (drop0x s.toList) ∧
      parse s = .error (.length 32 (((utf8 (drop0x s.toList)).length + 1) / 2))) ∨
    (¬64 < (utf8 (drop0x s.toList)).length ∧ IsNumeral (drop0x s.toList) ∧
      ∃ d, parse s = .ok d ∧ d.toNat = Hex.number (drop0x s.toList)) ∨
    (¬64 < (utf8 (drop0x s.toList)).length ∧ ¬IsNumeral (drop0x s.toList) ∧
      ∃ fault, parse s = .error (.hex fault)) := by
  by_cases hlong : 64 < (utf8 (drop0x s.toList)).length
  · refine .inl ⟨hlong, ?_, parse_of_long hlong⟩
    intro h
    exact Nat.not_lt.2 h.length_utf8_le hlong
  by_cases h : IsNumeral (drop0x s.toList)
  · exact .inr (.inl ⟨hlong, h, exists_parse h⟩)
  · exact .inr (.inr ⟨hlong, h, exists_parse_eq_hex (Nat.le_of_not_lt hlong) h⟩)

/-- Once a text has been padded and decoded it has 32 bytes, so that nothing can fail any more. -/
theorem length_of_decode_padded {body : List Char} {bs : List UInt8}
    (hsize : (utf8 body).length ≤ 64) (h : Hex.decode (utf8 (padded body)) = .ok bs) :
    bs.length = 32 := by
  have hnumeral := isNumeral_of_short hsize (isDigit_padded.1 (Hex.isDigit_of_decode h))
  obtain ⟨d, hd⟩ := exists_padded hnumeral.1 hnumeral.2
  cases (Hex.decode_of_map_toLower hd).symm.trans h
  exact d.length_bytes

/-- A text is read as a digest exactly if it is a numeral of up to 64 digits, behind a mark if need
be, and the digest holds the number of the numeral. It is refused for its length exactly if it has
more than 64 bytes behind the mark, with half of them, rounded up, for the length that was found; in
every other case it is refused for a digit. What has been decoded has 32 bytes. Every digest is read
from its written form. -/
theorem numeral_is_read_or_fault_is_named (s : String) :
    ((∃ d, parse s = .ok d) ↔ IsNumeral (drop0x s.toList)) ∧
    (∀ d, parse s = .ok d → d.toNat = Hex.number (drop0x s.toList)) ∧
    (∀ expected found, parse s = .error (.length expected found) ↔
      64 < (utf8 (drop0x s.toList)).length ∧ expected = 32 ∧
        found = ((utf8 (drop0x s.toList)).length + 1) / 2) ∧
    ((∃ fault, parse s = .error (.hex fault)) ↔
      ¬IsNumeral (drop0x s.toList) ∧ ¬64 < (utf8 (drop0x s.toList)).length) ∧
    (∀ bs, (utf8 (drop0x s.toList)).length ≤ 64 →
      Hex.decode (utf8 (padded (drop0x s.toList))) = .ok bs → bs.length = 32) ∧
    ∀ d : Digest, parse d.toHex = .ok d := by
  have hdecoded := fun bs => @length_of_decode_padded (drop0x s.toList) bs
  rcases parse_cases s with ⟨hlong, h, hs⟩ | ⟨hlong, h, d, hs, hd⟩ | ⟨hlong, h, fault, hs⟩
  · rw [hs]
    refine ⟨by simp [h], by simp, fun expected found => ?_, by simp [hlong], hdecoded, parse_toHex⟩
    simp [hlong, eq_comm]
  · rw [hs]
    refine ⟨by simp [h], fun d' hd' => ?_, by simp [hlong], by simp [h], hdecoded, parse_toHex⟩
    cases hd'
    exact hd
  · rw [hs]
    exact ⟨by simp [h], by simp, by simp [hlong], by simp [h, hlong], hdecoded, parse_toHex⟩

/-- Three digits are a numeral, and so are none. Letters with an accent are two bytes each: of 33 the
length is found to be 33, and 32 are not too long, but no digits. -/
theorem short_numerals_are_read_and_accents_are_not :
    (∃ d, parse "0xAbc" = .ok d ∧ d.toNat = 0xabc) ∧ (∃ d, parse "0x" = .ok d ∧ d.toNat = 0) ∧
      parse (String.ofList (List.replicate 33 'é')) = .error (.length 32 33) ∧
      ∃ fault, parse (String.ofList (List.replicate 32 'é')) = .error (.hex fault) := by
  have hread : ∀ s, IsNumeral (drop0x s.toList) →
      ∃ d, parse s = .ok d ∧ d.toNat = Hex.number (drop0x s.toList) := by
    intro s h
    obtain ⟨d, hd⟩ := (numeral_is_read_or_fault_is_named s).1.2 h
    exact ⟨d, hd, (numeral_is_read_or_fault_is_named s).2.1 d hd⟩
  have hbody : ∀ n, drop0x (String.ofList (List.replicate n 'é')).toList = List.replicate n 'é' := by
    intro n
    rw [String.toList_ofList]
    cases n <;> rfl
  refine ⟨hread "0xAbc" ⟨by decide, List.all_eq_true.1 (by decide)⟩,
    hread "0x" ⟨by decide, List.all_eq_true.1 (by decide)⟩, ?_, ?_⟩
  · apply ((numeral_is_read_or_fault_is_named _).2.2.1 32 33).2
    rw [hbody]
    decide
  · apply (numeral_is_read_or_fault_is_named _).2.2.2.1.2
    rw [hbody]
    refine ⟨fun h => ?_, by decide⟩
    exact absurd (h.2 'é' (by decide)) (by decide)

end Digest

end Quorate
