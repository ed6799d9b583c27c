/-
Numbers as bytes, read back: bytes of a given width hold a number below the power of 256 that the
width gives, and they hold it in one way. So digests that are made of numbers tell them apart.
-/
import Quorate.Digest
import Mathlib.Algebra.Ring.Nat

namespace Quorate

namespace BigEndian

/-- Bytes hold what is left of a number when all beyond their width is cut off. -/
theorem decode_encode (width n : Nat) : decode (encode width n) = n % 256 ^ width := by
  induction width generalizing n with
  | zero => simp [encode, decode, Nat.mod_one]
  | succ width ih =>
    have hlast : (UInt8.ofNat (n % 256)).toNat = n % 256 := by simp
    rw [encode, decode_append_singleton, ih, hlast, Nat.pow_succ, Nat.mul_comm (256 ^ width),
      Nat.mod_mul]
    omega

theorem decode_encode_of_lt {width n : Nat} (h : n < 256 ^ width) :
    decode (encode width n) = n := by
  rw [decode_encode, Nat.mod_eq_of_lt h]

/-- Two numbers that fit are told apart by their bytes. -/
theorem eq_of_encode_eq {width n m : Nat} (hn : n < 256 ^ width) (hm : m < 256 ^ width)
    (h : encode width n = encode width m) : n = m := by
  rw [← decode_encode_of_lt hn, h, decode_encode_of_lt hm]

end BigEndian

namespace Digest

theorem toNat_ofNat_of_lt {n : Nat} (h : n < 256 ^ 32) : (ofNat n).toNat = n :=
  BigEndian.decode_encode_of_lt h

/-- Bytes that fit stand behind as many zeros as are missing. -/
theorem bytes_padLeft {bs : List UInt8} (h : bs.length ≤ 32) :
    (padLeft bs).bytes = List.replicate (32 - bs.length) 0 ++ bs := by
  unfold padLeft
  simp only [Nat.sub_eq_zero_of_le h, List.drop_zero]

/-- Bytes of one length that fit are told apart by the digests that they are padded to. -/
theorem eq_of_padLeft_eq {bs cs : List UInt8} (hfits : bs.length ≤ 32)
    (hlength : bs.length = cs.length) (h : padLeft bs = padLeft cs) : bs = cs := by
  have hbytes := congrArg Digest.bytes h
  rw [bytes_padLeft hfits, bytes_padLeft (hlength ▸ hfits), hlength] at hbytes
  exact List.append_cancel_left hbytes

end Digest

end Quorate
