/-
Quoted text of TOML, in four styles: between double quotes, with escapes, and between single quotes,
without; either on one line or, between three quotes, on several.
-/
import Quorate.Toml.Scalar

namespace Quorate.Toml.Quoted

/-! ## Escapes -/

/-- The character that a letter behind a backslash stands for. -/
def escape? (c : Char) : Option Char :=
  if c = 'b' then some '\x08'
  else if c = 't' then some '\t'
  else if c = 'n' then some '\n'
  else if c = 'f' then some '\x0c'
  else if c = 'r' then some '\r'
  else if c = '"' then some '"'
  else if c = '\\' then some '\\'
  else none

/-- The character with a code point. Surrogates are none. -/
def ofPoint? (n : Nat) : Option Char := if n.isValidChar then some (Char.ofNat n) else none

/-- The character whose code point hexadecimal digits spell. -/
def point? (digits : List Char) : Option Char := do
  ofPoint? (ofDigits 16 (← digits.mapM hex?))

/-- A character in front of what a reader reads. -/
def onto (c : Char) (read : Option (List Char × List Char)) : Option (List Char × List Char) :=
  (fun r => (c :: r.1, r.2)) <$> read

/-! ## One line -/

/-- Reads text behind an opening double quote. -/
def basic : Reader (List Char)
  | [] => none
  | '"' :: rest => some ([], rest)
  | '\\' :: 'u' :: a :: b :: c :: d :: rest => do
    let p ← point? [a, b, c, d]
    onto p (basic rest)
  | '\\' :: 'U' :: a :: b :: c :: d :: e :: f :: g :: h :: rest => do
    let p ← point? [a, b, c, d, e, f, g, h]
    onto p (basic rest)
  | '\\' :: c :: rest => do
    let p ← escape? c
    onto p (basic rest)
  | c :: rest => if isPlain c then onto c (basic rest) else none

/-- Reads text behind an opening single quote. -/
def literal : Reader (List Char)
  | [] => none
  | '\'' :: rest => some ([], rest)
  | c :: rest => if isPlain c then onto c (literal rest) else none

/-! ## Several lines -/

/-- What becomes of blanks and line breaks: they belong to the text, or a backslash at the end of a
line is waiting for the break, or they are dropped behind such a break. -/
inductive Mode where
  | keeping
  | waiting
  | dropping
  deriving DecidableEq

/-- Reads text behind three opening double quotes. Up to two quotes before the closing three belong
to the text. -/
def basicLines : Mode → Reader (List Char)
  | _, [] => none
  | .waiting, '\r' :: '\n' :: rest => basicLines .dropping rest
  | .waiting, c :: rest =>
    if isBlank c then basicLines .waiting rest
    else if c = '\n' then basicLines .dropping rest
    else none
  | _, '"' :: '"' :: '"' :: '"' :: '"' :: rest => some (['"', '"'], rest)
  | _, '"' :: '"' :: '"' :: '"' :: rest => some (['"'], rest)
  | _, '"' :: '"' :: '"' :: rest => some ([], rest)
  | _, '\\' :: 'u' :: a :: b :: c :: d :: rest => do
    let p ← point? [a, b, c, d]
    onto p (basicLines .keeping rest)
  | _, '\\' :: 'U' :: a :: b :: c :: d :: e :: f :: g :: h :: rest => do
    let p ← point? [a, b, c, d, e, f, g, h]
    onto p (basicLines .keeping rest)
  | _, '\\' :: '\r' :: '\n' :: rest => basicLines .dropping rest
  | _, '\\' :: c :: rest =>
    if isBlank c then basicLines .waiting rest
    else if c = '\n' then basicLines .dropping rest
    else do
      let p ← escape? c
      onto p (basicLines .keeping rest)
  | mode, '\r' :: '\n' :: rest =>
    if mode = .dropping then basicLines .dropping rest else onto '\n' (basicLines .keeping rest)
  | mode, c :: rest =>
    if isBlank c || c = '\n' then
      if mode = .dropping then basicLines .dropping rest else onto c (basicLines .keeping rest)
    else if isPlain c then onto c (basicLines .keeping rest)
    else none

/-- Reads text behind three opening single quotes. Up to two quotes before the closing three belong
to the text. -/
def literalLines : Reader (List Char)
  | [] => none
  | '\'' :: '\'' :: '\'' :: '\'' :: '\'' :: rest => some (['\'', '\''], rest)
  | '\'' :: '\'' :: '\'' :: '\'' :: rest => some (['\''], rest)
  | '\'' :: '\'' :: '\'' :: rest => some ([], rest)
  | '\r' :: '\n' :: rest => onto '\n' (literalLines rest)
  | c :: rest => if isPlain c || c = '\n' then onto c (literalLines rest) else none

/-- Drops one line break at the front. -/
def dropBreak : List Char → List Char
  | '\n' :: rest => rest
  | '\r' :: '\n' :: rest => rest
  | cs => cs

/-! ## Any style -/

/-- Reads quoted text on one line. -/
def line : Reader (List Char)
  | '"' :: rest => basic rest
  | '\'' :: rest => literal rest
  | _ => none

/-- Reads quoted text in any style. -/
def text : Reader (List Char)
  | '"' :: '"' :: '"' :: rest => basicLines .keeping (dropBreak rest)
  | '\'' :: '\'' :: '\'' :: rest => literalLines (dropBreak rest)
  | cs => line cs

end Quorate.Toml.Quoted
