/-
Digits of either case. A text of digits stands for the bytes whose written form it is in lower case,
and is read as them. No character beyond ASCII is a digit, so that such a text has as many bytes as
characters; and no other text is read.
-/
import Quorate.Hex
import Quorate.Proofs.Utf8

namespace Quorate.Hex

open Text

/-! ## One digit -/

theorem toNat_lt_of_isDigit {c : Char} (h : isDigit c = true) : c.toNat < 128 := by
  simp only [isDigit, Char.isDigit, Bool.or_eq_true, Bool.and_eq_true, decide_eq_true_eq,
    Char.le_def, UInt32.le_iff_toNat_le] at h
  rw [← Char.toNat_val]
  rcases h with (⟨_, h⟩ | ⟨_, h⟩) | ⟨_, h⟩ <;> exact Nat.lt_of_le_of_lt h (by decide)

/-- The lower-case form of a character is of ASCII only if the character is. -/
theorem toNat_lt_of_toLower {c : Char} (h : c.toLower.toNat < 128) : c.toNat < 128 := by
  unfold Char.toLower at h
  split at h
  · rename_i hupper
    exact Nat.lt_of_le_of_lt (UInt32.le_iff_toNat_le.1 hupper.2) (by decide)
  · exact h

theorem toNat_digit_lt : ∀ n : Fin 16, (digit n.val).toNat < 128 := by
  decide

theorem toLower_digit : ∀ n : Fin 16, (digit n.val).toLower = digit n.val := by
  decide

theorem isDigit_ofNat : ∀ n : Fin 128, isDigit (Char.ofNat n.val) = true ↔
    ∃ m : Fin 16, (Char.ofNat n.val).toLower = digit m.val := by
  decide +kernel

theorem value?_ofNat : ∀ (n : Fin 128) (m : Fin 16), (Char.ofNat n.val).toLower = digit m.val →
    value? (UInt8.ofNat n.val) = some m.val := by
  decide +kernel

/-- A digit is one in lower case. -/
theorem isDigit_iff {c : Char} : isDigit c = true ↔ ∃ n : Fin 16, c.toLower = digit n.val := by
  have htable : c.toNat < 128 → (isDigit c = true ↔ ∃ n : Fin 16, c.toLower = digit n.val) := by
    intro hascii
    have h := isDigit_ofNat ⟨c.toNat, hascii⟩
    rwa [Char.ofNat_toNat] at h
  constructor
  · intro h
    exact (htable (toNat_lt_of_isDigit h)).1 h
  · rintro ⟨n, hn⟩
    exact (htable (toNat_lt_of_toLower (hn ▸ toNat_digit_lt n))).2 ⟨n, hn⟩

theorem utf8EncodeChar_digit {c : Char} {n : Fin 16} (h : c.toLower = digit n.val) :
    ∃ b, String.utf8EncodeChar c = [b] ∧ value? b = some n.val := by
  have hascii := toNat_lt_of_toLower (h ▸ toNat_digit_lt n)
  refine ⟨_, utf8EncodeChar_of_lt hascii, value?_ofNat ⟨c.toNat, hascii⟩ n ?_⟩
  rwa [Char.ofNat_toNat]

/-! ## Texts of digits -/

/-- What is written of bytes is in lower case. -/
theorem map_toLower_digits (bs : List UInt8) : (digits bs).map Char.toLower = digits bs := by
  induction bs with
  | nil => rfl
  | cons b bs ih =>
    have hb := b.toNat_lt
    rw [digits, List.flatMap_cons, List.map_append]
    refine congrArg₂ _ ?_ ih
    rw [pair, List.map_cons, List.map_cons, toLower_digit ⟨b.toNat / 16, by omega⟩,
      toLower_digit ⟨b.toNat % 16, by omega⟩]
    rfl

theorem length_digits (bs : List UInt8) : (digits bs).length = 2 * bs.length := by
  induction bs with
  | nil => rfl
  | cons b bs ih =>
    rw [digits] at ih ⊢
    rw [List.flatMap_cons, List.length_append, ih, List.length_cons]
    simp only [pair, List.length_cons, List.length_nil]
    omega

theorem isDigit_of_map_toLower {cs : List Char} {bs : List UInt8}
    (h : cs.map Char.toLower = digits bs) : ∀ c ∈ cs, isDigit c = true := by
  intro c hc
  have hmem : c.toLower ∈ digits bs := h ▸ List.mem_map_of_mem hc
  obtain ⟨b, _, hpair⟩ := List.mem_flatMap.1 hmem
  have hb := b.toNat_lt
  rw [pair, List.mem_cons, List.mem_singleton] at hpair
  rcases hpair with hhigh | hlow
  · exact isDigit_iff.2 ⟨⟨b.toNat / 16, by omega⟩, hhigh⟩
  · exact isDigit_iff.2 ⟨⟨b.toNat % 16, by omega⟩, hlow⟩

/-- A text of digits has as many bytes as characters. -/
theorem length_utf8_of_isDigit {cs : List Char} (h : ∀ c ∈ cs, isDigit c = true) :
    (utf8 cs).length = cs.length := by
  induction cs with
  | nil => rfl
  | cons c cs ih =>
    obtain ⟨hc, hcs⟩ := List.forall_mem_cons.1 h
    rw [utf8_cons, utf8EncodeChar_of_lt (toNat_lt_of_isDigit hc), List.length_append, ih hcs,
      List.length_singleton, List.length_cons, Nat.add_comm]

/-- An even number of digits stands for bytes. -/
theorem exists_bytes : ∀ {cs : List Char} {n : Nat}, (∀ c ∈ cs, isDigit c = true) →
    cs.length = 2 * n → ∃ bs, bs.length = n ∧ cs.map Char.toLower = digits bs
  | [], n, _, hlength => ⟨[], by rw [List.length_nil] at hlength ⊢; omega, rfl⟩
  | [_], _, _, hlength => by rw [List.length_singleton] at hlength; omega
  | c :: d :: cs, n, h, hlength => by
    obtain ⟨hc, h⟩ := List.forall_mem_cons.1 h
    obtain ⟨hd, hcs⟩ := List.forall_mem_cons.1 h
    obtain ⟨high, hhigh⟩ := isDigit_iff.1 hc
    obtain ⟨low, hlow⟩ := isDigit_iff.1 hd
    simp only [List.length_cons] at hlength
    obtain ⟨bs, hbs, heq⟩ := exists_bytes (n := n - 1) hcs (by omega)
    have hvalue : (UInt8.ofNat (high.val * 16 + low.val)).toNat = high.val * 16 + low.val := by
      rw [UInt8.toNat_ofNat']
      omega
    refine ⟨UInt8.ofNat (high.val * 16 + low.val) :: bs, by rw [List.length_cons]; omega, ?_⟩
    have hdiv : (high.val * 16 + low.val) / 16 = high.val := by omega
    have hmod : (high.val * 16 + low.val) % 16 = low.val := by omega
    rw [List.map_cons, List.map_cons, heq, hhigh, hlow, digits, digits, List.flatMap_cons, pair,
      hvalue, hdiv, hmod]
    rfl

theorem decodePairs_of_map_toLower : ∀ {bs : List UInt8} {cs : List Char} (index : Nat),
    cs.map Char.toLower = digits bs → decodePairs index (utf8 cs) = .ok bs
  | [], cs, _, h => by
    obtain rfl := List.map_eq_nil_iff.1 h
    rfl
  | b :: bs, cs, index, h => by
    have hb := b.toNat_lt
    obtain ⟨c, cs, rfl, hc, h⟩ := List.map_eq_cons_iff.1 h
    obtain ⟨d, cs, rfl, hd, h⟩ := List.map_eq_cons_iff.1 h
    obtain ⟨hi, hhi, hvhi⟩ := utf8EncodeChar_digit (n := ⟨b.toNat / 16, by omega⟩) hc
    obtain ⟨lo, hlo, hvlo⟩ := utf8EncodeChar_digit (n := ⟨b.toNat % 16, by omega⟩) hd
    have hvalue : b.toNat / 16 * 16 + b.toNat % 16 = b.toNat := by omega
    rw [utf8_cons, utf8_cons, hhi, hlo]
    show decodePairs index (hi :: lo :: utf8 cs) = _
    rw [decodePairs, hvhi, hvlo, decodePairs_of_map_toLower (index + 2) h]
    simp only [hvalue, UInt8.ofNat_toNat]
    rfl

/-- Digits of either case are read as the bytes whose written form they are in lower case. -/
theorem decode_of_map_toLower {cs : List Char} {bs : List UInt8}
    (h : cs.map Char.toLower = digits bs) : decode (utf8 cs) = .ok bs := by
  have hlength : cs.length = 2 * bs.length := by
    rw [← length_digits, ← h, List.length_map]
  have heven : ¬(utf8 cs).length % 2 = 1 := by
    rw [length_utf8_of_isDigit (isDigit_of_map_toLower h), hlength]
    omega
  rw [decode, if_neg heven, decodePairs_of_map_toLower 0 h]

/-! ## What is read -/

/-- A byte has a value only if it is the code of a digit. -/
theorem isDigit_of_value? : ∀ n : Fin 256, (value? (UInt8.ofNat n.val)).isSome = true →
    n.val < 128 ∧ isDigit (Char.ofNat n.val) = true := by
  decide +kernel

theorem value?_of_decodePairs {index : Nat} {bs out : List UInt8}
    (h : decodePairs index bs = .ok out) : ∀ b ∈ bs, (value? b).isSome = true := by
  fun_induction decodePairs index bs generalizing out with
  | case1 => intro b hb; cases hb
  | case2 => cases h
  | case3 => cases h
  | case4 => cases h
  | case5 index hi lo rest high low hlow hhigh ih =>
    cases hrest : decodePairs (index + 2) rest with
    | error fault => rw [hrest] at h; cases h
    | ok tail =>
      intro b hb
      rcases List.mem_cons.1 hb with rfl | hb
      · rw [hhigh]; rfl
      rcases List.mem_cons.1 hb with rfl | hb
      · rw [hlow]; rfl
      · exact ih hrest b hb

/-- A character whose bytes all have values is a digit. -/
theorem isDigit_of_utf8EncodeChar {c : Char}
    (h : ∀ b ∈ String.utf8EncodeChar c, (value? b).isSome = true) : isDigit c = true := by
  by_cases hc : c.toNat < 128
  · rw [utf8EncodeChar_of_lt hc] at h
    have hdigit := isDigit_of_value? ⟨c.toNat, by omega⟩ (h _ (List.mem_singleton_self _))
    rw [← Char.ofNat_toNat c]
    exact hdigit.2
  · -- the bytes of other characters are beyond ASCII
    obtain ⟨b, hb⟩ := List.exists_mem_of_ne_nil _ (String.utf8EncodeChar_ne_nil (c := c))
    have hlarge := le_of_mem_utf8EncodeChar (Nat.le_of_not_lt hc) hb
    have hdigit := isDigit_of_value? ⟨b.toNat, b.toNat_lt⟩
    simp only [UInt8.ofNat_toNat] at hdigit
    have := (hdigit (h b hb)).1
    omega

/-- Only digits are read. -/
theorem isDigit_of_decode {cs : List Char} {bs : List UInt8} (h : decode (utf8 cs) = .ok bs) :
    ∀ c ∈ cs, isDigit c = true := by
  unfold decode at h
  split at h
  · cases h
  · intro c hc
    apply isDigit_of_utf8EncodeChar
    intro b hb
    exact value?_of_decodePairs h b (List.mem_flatMap.2 ⟨c, hc, hb⟩)

end Quorate.Hex
