/-
Digests: 32 bytes, compared byte by byte. The written form is `0x` and 64 lower-case digits; a
shorter numeral is read as if it had leading zeros.
-/
import Quorate.BigEndian
import Quorate.Format

namespace Quorate

/-- A digest: 32 bytes. -/
structure Digest where
  bytes : List UInt8
  length_bytes : bytes.length = 32
  deriving DecidableEq

namespace Digest

theorem ext {a b : Digest} (h : a.bytes = b.bytes) : a = b := by
  cases a; cases b; cases h; rfl

/-- Digests are ordered as their bytes are, the first difference deciding. -/
instance : Ord Digest := ⟨fun a b => compare a.bytes b.bytes⟩

instance : Std.TransOrd Digest where
  eq_swap := by
    intro a b
    exact (Std.OrientedCmp.eq_swap : compare a.bytes b.bytes = (compare b.bytes a.bytes).swap)
  isLE_trans := by
    intro a b c h k
    exact (Std.TransCmp.isLE_trans h k : (compare a.bytes c.bytes).isLE = true)

instance : Std.LawfulEqOrd Digest where
  compare_self := by
    intro a
    exact (Std.ReflCmp.compare_self : compare a.bytes a.bytes = .eq)
  eq_of_compare := by
    intro a b h
    have h : compare a.bytes b.bytes = .eq := h
    exact ext (Std.LawfulEqCmp.eq_of_compare h)

instance : LT Digest := ltOfOrd

instance : LE Digest := leOfOrd

/-- The digest of zero bytes. -/
def zero : Digest := ⟨List.replicate 32 0, by simp⟩

instance : Inhabited Digest := ⟨zero⟩

def isZero (d : Digest) : Bool := d == zero

def ofBytes (bs : List UInt8) : Except FormatError Digest :=
  if h : bs.length = 32 then .ok ⟨bs, h⟩ else .error (.length 32 bs.length)

/-- The last 32 bytes, behind zeros where there are fewer. -/
def padLeft (bs : List UInt8) : Digest :=
  let tail := bs.drop (bs.length - 32)
  ⟨List.replicate (32 - tail.length) 0 ++ tail, by simp [tail]; omega⟩

/-- The number that the bytes stand for, the first byte being the most significant. -/
def toNat (d : Digest) : Nat := BigEndian.decode d.bytes

/-- The digest that holds a number, less what exceeds 256 bits. -/
def ofNat (n : Nat) : Digest := ⟨BigEndian.encode 32 n, BigEndian.length_encode 32 n⟩

def toHex (d : Digest) : String := "0x" ++ Hex.encode d.bytes

instance : ToString Digest := ⟨toHex⟩

def describe (d : Digest) : String := "Hash(" ++ d.toHex ++ ")"

/-- Reads a written digest. The mark `0x` may be absent, and missing digits count as leading zeros.
The limit of 64 counts bytes; the zeros are added by characters. -/
def parse (s : String) : Except FormatError Digest := do
  let body := Text.drop0x s.toList
  let size := (Text.utf8 body).length
  if 64 < size then throw (.length 32 ((size + 1) / 2))
  let padded := List.replicate (64 - body.length) '0' ++ body
  ofBytes (← (Hex.decode (Text.utf8 padded)).mapError .hex)

end Digest

end Quorate
