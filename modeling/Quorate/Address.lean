/-
Addresses: 20 bytes. The written form is `0x` and 40 digits whose letters carry a checksum: a letter
is a capital where the Keccak digest of the lower-case digits has a half-byte of at least eight.
-/
import Quorate.Curve.Point
import Quorate.Hash.Keccak

namespace Quorate

/-- An address: 20 bytes. -/
structure Address where
  bytes : List UInt8
  length_bytes : bytes.length = 20
  deriving DecidableEq

namespace Address

theorem ext {a b : Address} (h : a.bytes = b.bytes) : a = b := by
  cases a; cases b; cases h; rfl

/-- Addresses are ordered as their bytes are, the first difference deciding. -/
instance : Ord Address := ⟨fun a b => compare a.bytes b.bytes⟩

instance : Std.TransOrd Address where
  eq_swap := by
    intro a b
    exact (Std.OrientedCmp.eq_swap : compare a.bytes b.bytes = (compare b.bytes a.bytes).swap)
  isLE_trans := by
    intro a b c h k
    exact (Std.TransCmp.isLE_trans h k : (compare a.bytes c.bytes).isLE = true)

instance : Std.LawfulEqOrd Address where
  compare_self := by
    intro a
    exact (Std.ReflCmp.compare_self : compare a.bytes a.bytes = .eq)
  eq_of_compare := by
    intro a b h
    have h : compare a.bytes b.bytes = .eq := h
    exact ext (Std.LawfulEqCmp.eq_of_compare h)

def zero : Address := ⟨List.replicate 20 0, by simp⟩

instance : Inhabited Address := ⟨zero⟩

def ofBytes (bs : List UInt8) : Except FormatError Address :=
  if h : bs.length = 20 then .ok ⟨bs, h⟩ else .error (.length 20 bs.length)

/-- The last 20 bytes of a digest. -/
def ofDigest (d : Digest) : Address := ⟨d.bytes.drop 12, by simp [d.length_bytes]⟩

/-- The address of a public key: the end of the digest of its coordinates. -/
def ofPublicKey (key : Curve.Point) : Address := ofDigest (keccak256 key.toBytes.tail)

/-! ## The checksum -/

/-- The half-bytes of bytes, the upper one first. -/
def halves (bs : List UInt8) : List Nat := bs.flatMap fun b => [b.toNat / 16, b.toNat % 16]

/-- The digits of an address with the case that the checksum asks for. -/
def checksummed (lower : List Char) : List Char :=
  lower.zipWith (fun c h => if c.isAlpha && 8 ≤ h then c.toUpper else c)
    (halves (keccak256 (Text.utf8 lower)).bytes)

/-- The written form of 40 lower-case digits. -/
def checksumText (lower : List Char) : String := String.ofList ('0' :: 'x' :: checksummed lower)

def toChecksum (a : Address) : String := checksumText (Hex.digits a.bytes)

instance : ToString Address := ⟨toChecksum⟩

def describe (a : Address) : String := "Address(" ++ a.toChecksum ++ ")"

/-- The checksummed form of 40 digits of any case, with or without `0x`. -/
def checksumOf (s : String) : Except FormatError String :=
  let body := Text.drop0x s.toList
  if (Text.utf8 body).length = 40 ∧ body.all Hex.isDigit then
    .ok (checksumText (body.map Char.toLower))
  else .error (.address (.badBody s))

/-! ## Reading -/

/-- The digits of a written address. Digits of one case carry no checksum; digits of both cases must
be those of the checksummed form. -/
def checkedBody (s : String) : Except AddressFault (List Char) :=
  match s.toList with
  | '0' :: 'x' :: body =>
    let size := (Text.utf8 body).length
    if size ≠ 40 then .error (.bodyLength size)
    else if !body.all Hex.isDigit then .error (.badCharacter s)
    else if body.all (!·.isUpper) || body.all (!·.isLower) then .ok body
    else if checksumText (body.map Char.toLower) ≠ s then .error (.badChecksum s)
    else .ok body
  | _ => .error (.unmarked s)

/-- Whether a text is a written address. -/
def check (s : String) : Except FormatError Unit :=
  match checkedBody s with
  | .ok _ => .ok ()
  | .error fault => .error (.address fault)

def parse (s : String) : Except FormatError Address := do
  let body ← (checkedBody s).mapError .address
  ofBytes (← (Hex.decode (Text.utf8 body)).mapError .hex)

end Address

end Quorate
