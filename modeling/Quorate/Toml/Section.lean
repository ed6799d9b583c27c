/-
Tables in the making. Statements may come back to a table that was only passed through so far, and
assignments may extend a table that came from dotted keys; nothing is set twice.
-/
import Quorate.Toml.Statement

namespace Quorate.Toml

/-- How a table came about: it has a header, or the header of a table within it passed through it,
or a dotted key did. -/
inductive Origin where
  | stated
  | implied
  | dotted
  deriving DecidableEq

/-- What stands under a name: a value, a table, or an array of tables, the latest first. -/
inductive Item where
  | value (v : Value)
  | table (origin : Origin) (entries : List (String × Item))
  | tables (latest : List (String × Item)) (earlier : List (List (String × Item)))

/-- The entries of a table. -/
abbrev Section := List (String × Item)

namespace Section

/-- Puts an item under a name, in place of the one that is there. -/
def put (name : String) (item : Item) : Section → Section
  | [] => [(name, item)]
  | e :: rest => if e.1 = name then (name, item) :: rest else e :: put name item rest

/-- Changes the table at the end of a path. A path leads through tables, through the latest of an
array of tables, and through tables that it makes on the way. The path of a dotted key must not lead
through a table that has a header. -/
def alter (made : Origin) (change : Origin → Section → Option Section) :
    (path : List String) → Origin → Section → Option Section
  | [], origin, s => change origin s
  | n :: path, _, s =>
    match s.lookup n with
    | none => (fun t => put n (.table made t) s) <$> alter made change path made []
    | some (.value _) => none
    | some (.table origin t) =>
      if made = .dotted ∧ origin = .stated then none
      else (fun t => put n (.table origin t) s) <$> alter made change path origin t
    | some (.tables latest earlier) =>
      (fun t => put n (.tables t earlier) s) <$> alter made change path .stated latest

/-- Sets a name that is not set yet. -/
def setNew (name : String) (item : Item) (s : Section) : Option Section :=
  if (s.lookup name).isSome then none else some (s ++ [(name, item)])

/-- Assigns a value. Behind a path, the name has to belong to a table of dotted keys. -/
def assign (path : List String) (name : String) (v : Value) (s : Section) : Option Section :=
  match path with
  | [] => setNew name (.value v) s
  | _ => alter .dotted (fun origin t => if origin = .dotted then setNew name (.value v) t else none)
      path .stated s

/-- Opens a table by its header. Only a table that was passed through may be there. -/
def openTable (name : String) (s : Section) : Option Section :=
  match s.lookup name with
  | none => some (s ++ [(name, .table .stated [])])
  | some (.table .implied t) => some (put name (.table .stated t) s)
  | some _ => none

/-- Opens a further table of an array of tables. -/
def openElement (name : String) (s : Section) : Option Section :=
  match s.lookup name with
  | none => some (s ++ [(name, .tables [] [])])
  | some (.tables latest earlier) => some (put name (.tables [] (latest :: earlier)) s)
  | some _ => none

end Section

/-! ## The values of tables -/

mutual

def Item.toValue : Item → Value
  | .value v => v
  | .table _ entries => .table (entryValues entries)
  | .tables latest earlier => .array (tableValues earlier [.table (entryValues latest)])

def entryValues : List (String × Item) → List (String × Value)
  | [] => []
  | (n, item) :: rest => (n, item.toValue) :: entryValues rest

/-- The values of tables, the latest first, put in front of those that came later. -/
def tableValues : List (List (String × Item)) → List Value → List Value
  | [], later => later
  | t :: earlier, later => tableValues earlier (.table (entryValues t) :: later)

end

/-- The value of a table in braces. -/
def inlineTable? (members : List (List String × String × Value)) : Option Value := do
  let s ← members.foldlM (fun s m => Section.assign m.1 m.2.1 m.2.2 s) []
  some (.table (entryValues s))

end Quorate.Toml
