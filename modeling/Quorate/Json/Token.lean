/-
Tokens of JSON, and how bytes split into them.
-/
import Quorate.Json.Numeral
import Quorate.Json.Quoted

namespace Quorate.Json

inductive Token where
  | braceOpen
  | braceClose
  | bracketOpen
  | bracketClose
  | comma
  | colon
  | null
  | bool (b : Bool)
  | numeral (n : Numeral)
  | quoted (q : Quoted)
  deriving DecidableEq

namespace Token

/-- Whether a byte is white space between tokens. -/
def isSpace (b : UInt8) : Bool := b == 32 || b == 9 || b == 10 || b == 13

/-- The token that a byte is by itself. -/
def punctuation? (b : UInt8) : Option Token :=
  if b = 123 then some braceOpen
  else if b = 125 then some braceClose
  else if b = 91 then some bracketOpen
  else if b = 93 then some bracketClose
  else if b = 44 then some comma
  else if b = 58 then some colon
  else none

/-- Whether a byte can belong to a word: a run of lower-case letters, or of what numerals consist
of. -/
def isWord (b : UInt8) : Bool :=
  Numeral.isDigit b || b == 43 || b == 45 || b == 46 || b == 69 || (97 ≤ b && b ≤ 122)

def ofWord? (word : List UInt8) : Option Token :=
  if word = [110, 117, 108, 108] then some null
  else if word = [116, 114, 117, 101] then some (bool true)
  else if word = [102, 97, 108, 115, 101] then some (bool false)
  else numeral <$> Numeral.ofBytes? word

/-- Splits bytes into tokens. A word is taken as long as it can be. -/
def scan? : List UInt8 → Option (List Token)
  | [] => some []
  | b :: rest =>
    if isSpace b then scan? rest
    else if b = 34 then
      match _h : Quoted.split? rest with
      | none => none
      | some (raw, after) => (quoted ⟨raw⟩ :: ·) <$> scan? after
    else
      match punctuation? b with
      | some t => (t :: ·) <$> scan? rest
      | none =>
        match ofWord? (b :: rest.takeWhile isWord) with
        | some t => (t :: ·) <$> scan? (rest.dropWhile isWord)
        | none => none
termination_by bs => bs.length
decreasing_by
  · simp
  · have := Quoted.length_of_split? _h
    simp only [List.length_cons]
    omega
  · simp
  · have := (List.dropWhile_sublist isWord (l := rest)).length_le
    simp only [List.length_cons]
    omega

end Token

end Quorate.Json
