/-
Statements of TOML, one to a line: headers of tables and of arrays of tables, and assignments to
keys. Values may go on over several lines.
-/
import Quorate.Toml.Quoted

namespace Quorate.Toml

/-- A statement. Keys are paths of names, and the last name is the one that is set. -/
inductive Statement where
  | header (path : List String) (name : String)
  | element (path : List String) (name : String)
  | assignment (path : List String) (name : String) (value : Value)

/-! ## Keys -/

/-- Whether a character may stand in a key without quotes. -/
def isBare (c : Char) : Bool := c.isAlphanum || c == '_' || c == '-'

/-- Reads one name of a key. -/
def name : Reader String := fun cs =>
  match cs with
  | '"' :: _ | '\'' :: _ => (fun r => (String.ofList r.1, r.2)) <$> Quoted.line cs
  | _ =>
    let bare := cs.takeWhile isBare
    if bare.isEmpty then none else some (String.ofList bare, cs.dropWhile isBare)

/-- Reads names with points between them, and the blanks around each. -/
def names (cs : List Char) : Option (List String × List Char) :=
  match name (dropBlanks cs) with
  | none => none
  | some (n, rest) =>
    match dropBlanks rest with
    | '.' :: after =>
      if after.length < cs.length then (fun r => (n :: r.1, r.2)) <$> names after else none
    | after => some ([n], after)
termination_by cs.length

/-- Reads a key: its path and its last name. -/
def key : Reader (List String × String) := fun cs =>
  match names cs with
  | none => none
  | some (ns, rest) =>
    if h : ns = [] then none
    else if nestingLimit < ns.length then none
    else some ((ns.dropLast, ns.getLast h), rest)

/-! ## The ends of lines -/

/-- What follows the end of a line, which may come after blanks and a comment. -/
def lineEnd : (inComment : Bool) → List Char → Option (List Char)
  | _, [] => some []
  | _, '\n' :: rest => some rest
  | _, '\r' :: '\n' :: rest => some rest
  | true, c :: rest => if isPlain c then lineEnd true rest else none
  | false, c :: rest =>
    if isBlank c then lineEnd false rest else if c = '#' then lineEnd true rest else none

/-- Drops what may stand between the items of an array: blanks, line breaks and comments. -/
def dropFill : (inComment : Bool) → List Char → Option (List Char)
  | _, [] => some []
  | _, '\n' :: rest => dropFill false rest
  | _, '\r' :: '\n' :: rest => dropFill false rest
  | true, c :: rest => if isPlain c then dropFill true rest else none
  | false, c :: rest =>
    if isBlank c then dropFill false rest
    else if c = '#' then dropFill true rest
    else some (c :: rest)

/-! ## Values -/

/-- Reads the items of an array up to its closing bracket. -/
def items (item : Reader Value) (cs : List Char) : Option (List Value × List Char) :=
  match dropFill false cs with
  | none => none
  | some (']' :: rest) => some ([], rest)
  | some start =>
    match item start with
    | none => none
    | some (v, rest) =>
      match dropFill false rest with
      | some (']' :: after) => some ([v], after)
      | some (',' :: after) =>
        if after.length < cs.length then (fun r => (v :: r.1, r.2)) <$> items item after else none
      | _ => none
termination_by cs.length

/-- Reads an assignment: a key, an equals sign and a value. -/
def assignment (value : Reader Value) : Reader (List String × String × Value) := fun cs =>
  match key cs with
  | some ((path, n), '=' :: rest) =>
    (fun r => ((path, n, r.1), r.2)) <$> value (dropBlanks rest)
  | _ => none

/-- Reads the assignments of a table in braces up to the closing one. -/
def members (value : Reader Value) (cs : List Char) :
    Option (List (List String × String × Value) × List Char) :=
  match assignment value cs with
  | none => none
  | some (m, rest) =>
    match dropBlanks rest with
    | '}' :: after => some ([m], after)
    | ',' :: after =>
      if after.length < cs.length then (fun r => (m :: r.1, r.2)) <$> members value after else none
    | _ => none
termination_by cs.length

end Quorate.Toml
