/-
Values of JSON. A value that was read from a document has the members of every object in key order,
each key once; a record is written as an object with its fields in the order that its type gives.
-/
import Quorate.Json.Document
import Quorate.Json.Number
import Quorate.Table

namespace Quorate.Json

inductive Value where
  | null
  | bool (b : Bool)
  | number (n : Number)
  | string (s : String)
  | array (items : List Value)
  | object (members : List (String × Value))

namespace Value

instance : Inhabited Value := ⟨null⟩

mutual

def same : Value → Value → Bool
  | null, null => true
  | bool a, bool b => a == b
  | number m, number n => m == n
  | string s, string t => s == t
  | array xs, array ys => sameItems xs ys
  | object ms, object ns => sameMembers ms ns
  | _, _ => false

def sameItems : List Value → List Value → Bool
  | [], [] => true
  | x :: xs, y :: ys => same x y && sameItems xs ys
  | _, _ => false

def sameMembers : List (String × Value) → List (String × Value) → Bool
  | [], [] => true
  | (k, x) :: ms, (l, y) :: ns => k == l && same x y && sameMembers ms ns
  | _, _ => false

end

instance : BEq Value := ⟨same⟩

/-- An object whose members are put into key order. Of two members with one key the later stays. -/
def ofMembers (members : List (String × Value)) : Value := object (Table.ofList members).entries

mutual

/-- The value of a document, in which at most `limit` containers may be nested. -/
def ofDoc? (limit : Nat) : Doc → Option Value
  | .null => some null
  | .bool b => some (bool b)
  | .number n => number <$> Number.ofNumeral? n
  | .text q => string <$> q.text?
  | .array items => if limit = 0 then none else array <$> ofDocs? (limit - 1) items
  | .object members => if limit = 0 then none else ofMembers <$> membersOf? (limit - 1) members

/-- The values of a list of documents. -/
def ofDocs? (limit : Nat) : List Doc → Option (List Value)
  | [] => some []
  | d :: ds => do
    let v ← ofDoc? limit d
    let vs ← ofDocs? limit ds
    some (v :: vs)

/-- The members of an object, in the order of the document. -/
def membersOf? (limit : Nat) : List (Quoted × Doc) → Option (List (String × Value))
  | [] => some []
  | (k, d) :: ms => do
    let key ← k.text?
    let v ← ofDoc? limit d
    let rest ← membersOf? limit ms
    some ((key, v) :: rest)

end

end Value

/-- How many containers may be nested in a document. -/
def nestingLimit : Nat := 127

end Quorate.Json
