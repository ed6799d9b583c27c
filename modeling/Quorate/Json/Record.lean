/-
Reading records from documents. A record is an object whose members are known by name, or an array
of its fields in order. A flat record is an object only; its members are free values, of which those
of unknown name are passed over.
-/
import Quorate.Json.Value

namespace Quorate.Json

/-- A reader of documents in which at most the given number of containers may be nested. -/
abbrev Reader (α : Type) := (limit : Nat) → Doc → Option α

namespace Reader

def text : Reader String
  | _, .text q => q.text?
  | _, _ => none

/-- Reads a text of which only certain spellings are good. -/
def textBy {α : Type} (parse : String → Option α) : Reader α := fun limit d => do
  parse (← text limit d)

/-- Reads an integer from zero up to a bound. -/
def below (bound : Nat) : Reader Nat
  | _, .number n => n.natBelow? bound
  | _, _ => none

def byte : Reader UInt8 := fun limit d => UInt8.ofNat <$> below UInt8.size limit d

def word : Reader UInt32 := fun limit d => UInt32.ofNat <$> below UInt32.size limit d

def count : Reader UInt64 := fun limit d => UInt64.ofNat <$> below UInt64.size limit d

def truth : Reader Bool
  | _, .bool b => some b
  | _, _ => none

def value : Reader Value := Value.ofDoc?

def nullable {α : Type} (read : Reader α) : Reader (Option α)
  | _, .null => some none
  | limit, d => some <$> read limit d

def list {α : Type} (read : Reader α) : Reader (List α)
  | limit + 1, .array items => items.mapM (read limit)
  | _, _ => none

end Reader

/-- The fields of a record that are present, and how many containers may be nested in each. -/
structure Fields where
  members : List (String × Doc)
  limit : Nat

namespace Fields

/-- The members of an object with the meaning of their keys. -/
def keyed? (members : List (Quoted × Doc)) : Option (List (String × Doc)) :=
  members.mapM fun m => (fun k => (k, m.2)) <$> m.1.text?

/-- The members with known names. None of the names may occur twice. -/
def known? (names : List String) (members : List (String × Doc)) : Option (List (String × Doc)) :=
  let known := members.filter fun m => names.contains m.1
  if (known.map (·.1)).Nodup then some known else none

/-- The fields of a record with the given names. -/
def ofDoc? (names : List String) : Reader Fields
  | limit + 1, .object members => do
    some ⟨← known? names (← keyed? members), limit⟩
  | limit + 1, .array items =>
    if items.length ≤ names.length then some ⟨names.zip items, limit⟩ else none
  | _, _ => none

/-- The fields of a flat record with the given names. -/
def ofFlat? (names : List String) : Reader Fields
  | limit + 1, .object members => do
    let keyed ← keyed? members
    if keyed.all fun m => (Reader.value limit m.2).isSome then
      some ⟨← known? names keyed, limit⟩
    else none
  | _, _ => none

/-- A field that has to be there. -/
def required {α : Type} (fields : Fields) (name : String) (read : Reader α) : Option α := do
  read fields.limit (← fields.members.lookup name)

/-- A field with a value that stands in for it. -/
def optional {α : Type} (fields : Fields) (name : String) (absent : α) (read : Reader α) :
    Option α :=
  match fields.members.lookup name with
  | some d => read fields.limit d
  | none => some absent

end Fields

def Reader.ofText? {α : Type} (read : Reader α) (s : String) : Option α := do
  read nestingLimit (← Doc.ofText? s)

def Reader.ofBytes? {α : Type} (read : Reader α) (bs : List UInt8) : Option α := do
  read nestingLimit (← Doc.ofBytes? bs)

end Quorate.Json
