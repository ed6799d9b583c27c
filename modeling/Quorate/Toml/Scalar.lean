/-
Values, and how those that are single words are read: truth values, integers, floats and times. Of
floats and times nothing but the spelling is kept.
-/
import Quorate.Decimal.Binary64
import Quorate.Hex
import Quorate.Toml.Time

namespace Quorate.Toml

inductive Value where
  | text (s : String)
  | integer (n : Int)
  | float (spelling : List Char)
  | truth (b : Bool)
  | time (spelling : List Char)
  | array (items : List Value)
  | table (entries : List (String × Value))
  deriving Inhabited

/-- A reader takes characters from the front. It gives what they stand for, and what is left. -/
abbrev Reader (α : Type) := List Char → Option (α × List Char)

/-- How many containers may be nested, and how many parts a dotted key may have. -/
def nestingLimit : Nat := 79

def isBlank (c : Char) : Bool := c == ' ' || c == '\t'

/-- Whether a character may stand in text: all but the controls, of which only the tab may. -/
def isPlain (c : Char) : Bool := c == '\t' || (32 ≤ c.toNat && c.toNat ≠ 127)

def dropBlanks (cs : List Char) : List Char := cs.dropWhile isBlank

/-! ## Digits -/

/-- The value of a decimal digit. -/
def decimal? (c : Char) : Option Nat := if c.isDigit then some (c.toNat - 48) else none

/-- The value of a digit below a base of at most ten. -/
def digitBelow? (base : Nat) (c : Char) : Option Nat := (decimal? c).filter (· < base)

/-- The value of a hexadecimal digit. -/
def hex? (c : Char) : Option Nat :=
  if c.toNat < 128 then Hex.value? (UInt8.ofNat c.toNat) else none

/-- The values of digits. A single `_` may stand between two of them. -/
def grouped? (value? : Char → Option Nat) : List Char → Option (List Nat)
  | [] => none
  | [c] => (fun d => [d]) <$> value? c
  | c :: '_' :: rest => do
    let d ← value? c
    let ds ← grouped? value? rest
    some (d :: ds)
  | c :: rest => do
    let d ← value? c
    let ds ← grouped? value? rest
    some (d :: ds)

/-- The number that digits stand for in a base. -/
def ofDigits (base : Nat) (ds : List Nat) : Nat := ds.foldl (fun n d => n * base + d) 0

/-- Splits off a sign, true for a minus. -/
def signed : List Char → Bool × List Char
  | '-' :: rest => (true, rest)
  | '+' :: rest => (false, rest)
  | cs => (false, cs)

/-- Decimal digits of which the first is a zero only if it is the last too. -/
def whole? (cs : List Char) : Option (List Nat) :=
  match grouped? decimal? cs with
  | some (0 :: _ :: _) => none
  | found => found

/-! ## Integers -/

/-- An integer, if it fits into 64 bits with a sign. -/
def fitting? (n : Int) : Option Int :=
  if -0x8000000000000000 ≤ n ∧ n < 0x8000000000000000 then some n else none

def integer? (word : List Char) : Option Int := do
  match word with
  | '0' :: 'x' :: rest => fitting? (ofDigits 16 (← grouped? hex? rest))
  | '0' :: 'o' :: rest => fitting? (ofDigits 8 (← grouped? (digitBelow? 8) rest))
  | '0' :: 'b' :: rest => fitting? (ofDigits 2 (← grouped? (digitBelow? 2) rest))
  | _ =>
    let (negative, rest) := signed word
    let n := ofDigits 10 (← whole? rest)
    fitting? (if negative then -(n : Int) else n)

/-! ## Floats -/

/-- Whether a character ends the whole part of a float. -/
def endsWhole (c : Char) : Bool := c == '.' || c == 'e' || c == 'E'

def startsExponent (c : Char) : Bool := c == 'e' || c == 'E'

/-- The digits behind a point, if there is a point. -/
def fraction? : List Char → Option (List Nat)
  | [] => some []
  | '.' :: cs => grouped? decimal? cs
  | _ => none

/-- The exponent, if there is a letter for it. -/
def exponent? : List Char → Option Int
  | [] => some 0
  | _ :: cs => do
    let (negative, cs) := signed cs
    let n := ofDigits 10 (← grouped? decimal? cs)
    some (if negative then -(n : Int) else n)

/-- Whether digits times a power of ten are beyond the range of binary64: at or above the middle
between its largest value and the power of two that would be next, (2^54 - 1) · 2^970. -/
def exceedsRange (digits : Nat) (exponent : Int) : Bool :=
  let leading := (Nat.toDigits 10 digits).length + exponent
  digits ≠ 0 && (310 < leading ||
    (308 ≤ leading && Decimal.compareScaled digits exponent 0x3FFFFFFFFFFFFF 970 != .lt))

/-- Whether a word is a float. A positive one has to be in range. -/
def isFloat (word : List Char) : Bool :=
  let (negative, body) := signed word
  if body = ['i', 'n', 'f'] || body = ['n', 'a', 'n'] then true
  else
    let tail := body.dropWhile (!endsWhole ·)
    let found := do
      let whole ← whole? (body.takeWhile (!endsWhole ·))
      let fraction ← fraction? (tail.takeWhile (!startsExponent ·))
      let exponent ← exponent? (tail.dropWhile (!startsExponent ·))
      let digits := ofDigits 10 (whole ++ fraction)
      some (negative || !exceedsRange digits (exponent - fraction.length))
    !tail.isEmpty && found.getD false

/-! ## Words -/

/-- Whether a character can belong to a word. -/
def isWordChar (c : Char) : Bool := c.isAlphanum || c ∈ ['+', '-', '_', '.', ':']

def scalar? (word : List Char) : Option Value :=
  if word = ['t', 'r', 'u', 'e'] then some (.truth true)
  else if word = ['f', 'a', 'l', 's', 'e'] then some (.truth false)
  else if Time.isTime word then some (.time word)
  else if isFloat word then some (.float word)
  else .integer <$> integer? word

/-- Whether the characters behind a date go on with a time of day. -/
def goesOn : List Char → Bool
  | ' ' :: c :: _ => c.isDigit
  | _ => false

/-- Reads a word and its value. A date may be followed by a blank and a time of day. -/
def scalar : Reader Value := fun cs =>
  let word := cs.takeWhile isWordChar
  let rest := cs.dropWhile isWordChar
  if Time.isDate word && goesOn rest then
    let second := (rest.drop 1).takeWhile isWordChar
    if Time.isClock second then
      some (.time (word ++ ' ' :: second), (rest.drop 1).dropWhile isWordChar)
    else none
  else (fun v => (v, rest)) <$> scalar? word

end Quorate.Toml
