/-
Text as the formats see it: a list of characters, its UTF-8 bytes, and the blanks that are trimmed
from the two ends of a value. Blank means the Unicode property White_Space. Text is shown to a reader
between quotes, with escapes for what would not be seen or would end the text.
-/
import Quorate.Text.Joining
import Quorate.Text.Unseen

namespace Quorate.Text

def utf8 (cs : List Char) : List UInt8 := cs.flatMap String.utf8EncodeChar

def bytes (s : String) : List UInt8 := utf8 s.toList

/-- The text that UTF-8 bytes stand for, if they stand for one. -/
def ofBytes? (bs : List UInt8) : Option String := String.fromUTF8? ⟨bs.toArray⟩

/-- The code points with the Unicode property White_Space, as closed ranges. -/
def blankRanges : List (Nat × Nat) :=
  [(0x09, 0x0D), (0x20, 0x20), (0x85, 0x85), (0xA0, 0xA0), (0x1680, 0x1680), (0x2000, 0x200A),
   (0x2028, 0x2029), (0x202F, 0x202F), (0x205F, 0x205F), (0x3000, 0x3000)]

/-- Whether a number lies in one of the closed ranges, which ascend. -/
def inRanges (n : Nat) : List (Nat × Nat) → Bool
  | [] => false
  | (low, high) :: rest => low ≤ n && (n ≤ high || inRanges n rest)

/-- Whether a character is white space. -/
def isBlank (c : Char) : Bool := inRanges c.toNat blankRanges

def trim (cs : List Char) : List Char :=
  ((cs.dropWhile isBlank).reverse.dropWhile isBlank).reverse

def allBlank (s : String) : Bool := s.toList.all isBlank

/-- The text without one leading `0x`. -/
def drop0x : List Char → List Char
  | '0' :: 'x' :: rest => rest
  | cs => cs

/-! ## Shown to a reader -/

/-- Whether a character cannot be shown by itself: it leaves nothing to see, or it joins the one
before it. -/
def isUnseen (c : Char) : Bool := inRanges c.toNat unseenRanges || inRanges c.toNat joiningRanges

/-- A character as it is shown between quotes of the given kind. -/
def shown (mark c : Char) : List Char :=
  if c = mark || c = '\\' then ['\\', c]
  else if c = '\n' then ['\\', 'n']
  else if c = '\r' then ['\\', 'r']
  else if c = '\t' then ['\\', 't']
  else if c.toNat = 0 then ['\\', '0']
  else if isUnseen c then ['\\', 'u', '{'] ++ Nat.toDigits 16 c.toNat ++ ['}']
  else [c]

/-- Characters between quotes of the given kind. -/
def quoted (mark : Char) (cs : List Char) : String :=
  String.ofList (mark :: (cs.flatMap (shown mark) ++ [mark]))

end Quorate.Text
