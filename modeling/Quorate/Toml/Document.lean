/-
Documents of TOML: statements line by line, and the table that they make together.
-/
import Quorate.Toml.Section

namespace Quorate.Toml

/-- Reads a value in which no more than `depth` containers are nested. -/
def value : (depth : Nat) → Reader Value
  | _, '"' :: rest => (fun r => (.text (String.ofList r.1), r.2)) <$> Quoted.text ('"' :: rest)
  | _, '\'' :: rest => (fun r => (.text (String.ofList r.1), r.2)) <$> Quoted.text ('\'' :: rest)
  | depth + 1, '[' :: rest => (fun r => (.array r.1, r.2)) <$> items (value depth) rest
  | depth + 1, '{' :: rest =>
    match dropBlanks rest with
    | '}' :: after => some (.table [], after)
    | start => do
      let (ms, after) ← members (value depth) start
      some (← inlineTable? ms, after)
  | _, cs => scalar cs

/-- Reads the key of a header, and what closes it. -/
def headerKey (closing : List Char) : Reader (List String × String) := fun cs =>
  match key cs with
  | some (k, rest) => if closing.isPrefixOf rest then some (k, rest.drop closing.length) else none
  | none => none

/-- Reads a statement, without the end of its line. -/
def statement : Reader Statement
  | '[' :: '[' :: rest => (fun r => (.element r.1.1 r.1.2, r.2)) <$> headerKey [']', ']'] rest
  | '[' :: rest => (fun r => (.header r.1.1 r.1.2, r.2)) <$> headerKey [']'] rest
  | cs => (fun r => (.assignment r.1.1 r.1.2.1 r.1.2.2, r.2)) <$> assignment (value nestingLimit) cs

/-- Whether nothing but a comment stands on a line, given the line without the blanks in front. -/
def isIdle : List Char → Bool
  | '#' :: _ | '\n' :: _ | '\r' :: _ => true
  | _ => false

/-- Reads statements up to the end, each on a line of its own. -/
def statements (cs : List Char) : Option (List Statement) :=
  match dropBlanks cs with
  | [] => some []
  | start =>
    if isIdle start then
      match lineEnd false start with
      | none => none
      | some rest => if rest.length < cs.length then statements rest else none
    else
      match statement start with
      | none => none
      | some (s, after) =>
        match lineEnd false after with
        | none => none
        | some rest =>
          if rest.length < cs.length then (s :: ·) <$> statements rest else none
termination_by cs.length

/-- A table in the making, and the header that assignments belong to. -/
structure Assembly where
  root : Section
  current : List String

namespace Assembly

def after? (a : Assembly) : Statement → Option Assembly
  | .header path name =>
    (fun root => ⟨root, path ++ [name]⟩) <$>
      Section.alter .implied (fun _ s => s.openTable name) path .stated a.root
  | .element path name =>
    (fun root => ⟨root, path ++ [name]⟩) <$>
      Section.alter .implied (fun _ s => s.openElement name) path .stated a.root
  | .assignment path name v =>
    (fun root => ⟨root, a.current⟩) <$>
      Section.alter .implied (fun _ s => s.assign path name v) a.current .stated a.root

end Assembly

def ofStatements? (statements : List Statement) : Option (List (String × Value)) := do
  let a ← statements.foldlM Assembly.after? ⟨[], []⟩
  some (entryValues a.root)

/-- Drops the mark that may stand in front of a text. -/
def dropMark : List Char → List Char
  | '\uFEFF' :: rest => rest
  | cs => cs

def parse? (s : String) : Option (List (String × Value)) := do
  ofStatements? (← statements (dropMark s.toList))

end Quorate.Toml
