/-
Writing JSON: compact, without any blanks, and pretty, with a line for each item and two spaces for
each level. Text is written raw but for quotes, backslashes and controls.
-/
import Quorate.Json.Value

namespace Quorate.Json

/-- The characters that stand for one character between quotes. -/
def escaped (c : Char) : List Char :=
  if c = '"' then ['\\', '"']
  else if c = '\\' then ['\\', '\\']
  else if c = '\x08' then ['\\', 'b']
  else if c = '\t' then ['\\', 't']
  else if c = '\n' then ['\\', 'n']
  else if c = '\x0c' then ['\\', 'f']
  else if c = '\r' then ['\\', 'r']
  else if c.toNat < 32 then ['\\', 'u', '0', '0'] ++ Hex.pair (UInt8.ofNat c.toNat)
  else [c]

/-- A text between quotes. -/
def quote (s : String) : List Char := '"' :: (s.toList.flatMap escaped ++ ['"'])

namespace Value

mutual

def compact : Value → List Char
  | null => ['n', 'u', 'l', 'l']
  | bool true => ['t', 'r', 'u', 'e']
  | bool false => ['f', 'a', 'l', 's', 'e']
  | number n => n.write
  | string s => quote s
  | array [] => ['[', ']']
  | array (v :: vs) => '[' :: (compact v ++ compactItems vs)
  | object [] => ['{', '}']
  | object ((k, v) :: ms) => '{' :: (quote k ++ ':' :: (compact v ++ compactMembers ms))

/-- The compact form of the items behind the first, up to the closing bracket. -/
def compactItems : List Value → List Char
  | [] => [']']
  | v :: vs => ',' :: (compact v ++ compactItems vs)

/-- The compact form of the members behind the first, up to the closing brace. -/
def compactMembers : List (String × Value) → List Char
  | [] => ['}']
  | (k, v) :: ms => ',' :: (quote k ++ ':' :: (compact v ++ compactMembers ms))

end

/-- A line break and the blanks of a level. -/
def newline (level : Nat) : List Char := '\n' :: List.replicate (2 * level) ' '

mutual

/-- The pretty form, for a value that stands at a level. -/
def pretty (level : Nat) : Value → List Char
  | array (v :: vs) =>
    '[' :: (newline (level + 1) ++ pretty (level + 1) v ++ prettyItems level vs)
  | object ((k, v) :: ms) =>
    '{' :: (newline (level + 1) ++ quote k ++ ':' :: ' ' ::
      (pretty (level + 1) v ++ prettyMembers level ms))
  | array [] => ['[', ']']
  | object [] => ['{', '}']
  | null => ['n', 'u', 'l', 'l']
  | bool true => ['t', 'r', 'u', 'e']
  | bool false => ['f', 'a', 'l', 's', 'e']
  | number n => n.write
  | string s => quote s

/-- The pretty form of the items behind the first, up to the closing bracket. -/
def prettyItems (level : Nat) : List Value → List Char
  | [] => newline level ++ [']']
  | v :: vs => ',' :: (newline (level + 1) ++ pretty (level + 1) v ++ prettyItems level vs)

/-- The pretty form of the members behind the first, up to the closing brace. -/
def prettyMembers (level : Nat) : List (String × Value) → List Char
  | [] => newline level ++ ['}']
  | (k, v) :: ms =>
    ',' :: (newline (level + 1) ++ quote k ++ ':' :: ' ' ::
      (pretty (level + 1) v ++ prettyMembers level ms))

end

def toText (v : Value) : String := String.ofList v.compact

def toPretty (v : Value) : String := String.ofList (v.pretty 0)

end Value

end Quorate.Json
