/-
Writing text in TOML, in the plainest style that can hold it.
-/
import Quorate.Hex

namespace Quorate.Toml

/-- The four styles of quoted text. -/
inductive Style where
  | basic
  | literal
  | basicLines
  | literalLines
  deriving DecidableEq, Repr

/-- The length of the longest run of a character, given the length of the run that is under way. -/
def longestRun (q : Char) : (run : Nat) → List Char → Nat
  | run, [] => run
  | run, c :: cs => if c = q then longestRun q (run + 1) cs else max run (longestRun q 0 cs)

/-- Whether a character is a control that cannot stand for itself. Tabs and line feeds can. -/
def isControl (c : Char) : Bool := (c.toNat < 32 && c != '\t' && c != '\n') || c.toNat == 127

/-- The style of a text, and whether the text needs escapes beyond that of a tab. -/
def styleOf (cs : List Char) : Style :=
  let control := cs.any isControl
  let backslash := cs.contains '\\'
  let lines := cs.contains '\n'
  let double := longestRun '"' 0 cs
  let single := longestRun '\'' 0 cs
  if !control && !backslash && double = 0 && !lines then .basic
  else if !control && single = 0 && !lines then .literal
  else if !control && !backslash && double ≤ 2 then .basicLines
  else if !control && single ≤ 2 then .literalLines
  else if lines then .basicLines
  else .basic

/-- The characters that stand for one other than a quote or a line feed between double quotes. -/
def escapedChar (c : Char) : List Char :=
  if c = '\x08' then ['\\', 'b']
  else if c = '\t' then ['\\', 't']
  else if c = '\x0c' then ['\\', 'f']
  else if c = '\r' then ['\\', 'r']
  else if c = '\\' then ['\\', '\\']
  else if c.toNat < 32 || c.toNat = 127 then
    ['\\', 'u', '0', '0'] ++ (Hex.pair (UInt8.ofNat c.toNat)).map Char.toUpper
  else [c]

/-- Text between double quotes. On several lines, line feeds stand for themselves, and so do two
quotes in a row; `run` counts the quotes just before. -/
def escapedText (lines : Bool) : (run : Nat) → List Char → List Char
  | _, [] => []
  | run, '"' :: cs =>
    if lines && run < 2 then '"' :: escapedText lines (run + 1) cs
    else '\\' :: '"' :: escapedText lines 0 cs
  | _, '\n' :: cs =>
    if lines then '\n' :: escapedText lines 0 cs else '\\' :: 'n' :: escapedText lines 0 cs
  | _, c :: cs => escapedChar c ++ escapedText lines 0 cs

/-- The line break behind three opening quotes, for text with lines. -/
def openingBreak (cs : List Char) : List Char := if cs.contains '\n' then ['\n'] else []

/-- A text in a style. -/
def writeIn (style : Style) (cs : List Char) : List Char :=
  match style with
  | .basic => '"' :: (escapedText false 0 cs ++ ['"'])
  | .literal => '\'' :: (cs ++ ['\''])
  | .basicLines =>
    ['"', '"', '"'] ++ openingBreak cs ++ escapedText true 0 cs ++ ['"', '"', '"']
  | .literalLines => ['\'', '\'', '\''] ++ openingBreak cs ++ cs ++ ['\'', '\'', '\'']

/-- A text in the style that fits it. -/
def writeText (s : String) : List Char := writeIn (styleOf s.toList) s.toList

end Quorate.Toml
