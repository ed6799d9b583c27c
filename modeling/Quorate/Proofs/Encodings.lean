/-
Bytes as text: what is written in base64 is read back, and so is the written form of a digest.
-/
import Quorate.Base64
import Quorate.Digest
import Quorate.Proofs.HexDigits

namespace Quorate

open Text

namespace Base64

theorem sextet?_character : ∀ n : Fin 64, sextet? (character n.val) = some n.val := by
  decide

theorem character_ne : ∀ n : Fin 64, character n.val ≠ '=' := by
  decide

theorem sextet?_of_lt {n : Nat} (h : n < 64) : sextet? (character n) = some n :=
  sextet?_character ⟨n, h⟩

theorem decode?_cons {a b c d : Char} (hc : c ≠ '=') (hd : d ≠ '=') (rest : List Char) :
    decode? (a :: b :: c :: d :: rest) = (do
      let p ← sextet? a
      let q ← sextet? b
      let r ← sextet? c
      let s ← sextet? d
      let bytes ← decode? rest
      some (UInt8.ofNat (p * 4 + q / 16) :: UInt8.ofNat (q % 16 * 16 + r / 4) ::
        UInt8.ofNat (r % 4 * 64 + s) :: bytes)) := by
  rw [decode?]
  all_goals simp_all

theorem decode?_two {a b c : Char} (hc : c ≠ '=') :
    decode? [a, b, c, '='] = (do
      let p ← sextet? a
      let q ← sextet? b
      let r ← sextet? c
      if r % 4 = 0 then
        some [UInt8.ofNat (p * 4 + q / 16), UInt8.ofNat (q % 16 * 16 + r / 4)]
      else none) := by
  rw [decode?]
  simp_all

/-- The characters of a group hold the bits of its bytes. -/
theorem decode?_encode : ∀ bs : List UInt8, decode? (encode bs) = some bs
  | [] => rfl
  | [a] => by
    have ha := a.toNat_lt
    have hfirst : a.toNat / 4 * 4 + a.toNat % 4 * 16 / 16 = a.toNat := by omega
    rw [encode, decode?, sextet?_of_lt (by omega), sextet?_of_lt (by omega)]
    simp only [Option.bind_eq_bind, Option.bind_some, hfirst, UInt8.ofNat_toNat]
    exact if_pos (by omega)
  | [a, b] => by
    have ha := a.toNat_lt
    have hb := b.toNat_lt
    have hfirst : a.toNat / 4 * 4 + (a.toNat % 4 * 16 + b.toNat / 16) / 16 = a.toNat := by omega
    have hsecond : (a.toNat % 4 * 16 + b.toNat / 16) % 16 * 16 + b.toNat % 16 * 4 / 4 = b.toNat := by
      omega
    rw [encode, decode?_two (character_ne ⟨_, by omega⟩), sextet?_of_lt (by omega),
      sextet?_of_lt (by omega), sextet?_of_lt (by omega)]
    simp only [Option.bind_eq_bind, Option.bind_some, hfirst, hsecond, UInt8.ofNat_toNat]
    exact if_pos (by omega)
  | a :: b :: c :: rest => by
    have ha := a.toNat_lt
    have hb := b.toNat_lt
    have hc := c.toNat_lt
    have hfirst : a.toNat / 4 * 4 + (a.toNat % 4 * 16 + b.toNat / 16) / 16 = a.toNat := by omega
    have hsecond : (a.toNat % 4 * 16 + b.toNat / 16) % 16 * 16 +
        (b.toNat % 16 * 4 + c.toNat / 64) / 4 = b.toNat := by omega
    have hthird : (b.toNat % 16 * 4 + c.toNat / 64) % 4 * 64 + c.toNat % 64 = c.toNat := by omega
    rw [encode, decode?_cons (character_ne ⟨_, by omega⟩) (character_ne ⟨_, by omega⟩),
      sextet?_of_lt (by omega), sextet?_of_lt (by omega), sextet?_of_lt (by omega),
      sextet?_of_lt (by omega), decode?_encode rest]
    simp only [Option.bind_eq_bind, Option.bind_some, hfirst, hsecond, hthird, UInt8.ofNat_toNat]

end Base64

/-- A digest is read from its written form. -/
theorem Digest.parse_toHex (d : Digest) : parse d.toHex = .ok d := by
  have hbody : drop0x d.toHex.toList = Hex.digits d.bytes := by
    rw [toHex, Hex.encode, String.toList_append]
    show (String.ofList (Hex.digits d.bytes)).toList = _
    rw [String.toList_ofList]
  have hsize : (utf8 (Hex.digits d.bytes)).length = 64 := by
    rw [Hex.length_utf8_of_isDigit (Hex.isDigit_of_map_toLower (Hex.map_toLower_digits _)),
      Hex.length_digits, d.length_bytes]
  have hpadded : List.replicate (64 - (Hex.digits d.bytes).length) '0' ++ Hex.digits d.bytes =
      Hex.digits d.bytes := by
    rw [Hex.length_digits, d.length_bytes]
    rfl
  have hbytes : ofBytes d.bytes = .ok d := dif_pos d.length_bytes
  unfold parse
  simp only [hbody, hsize, hpadded, Hex.decode_of_map_toLower (Hex.map_toLower_digits _)]
  exact hbytes

end Quorate
