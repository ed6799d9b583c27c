/-
JSON documents as they are written: the tree of a text, with members in their order and numbers and
quoted text as spelled. Reading one checks the grammar and nothing else; what a document means to a
reader of some type is decided by that reader.
-/
import Quorate.Json.Token

namespace Quorate.Json

inductive Doc where
  | null
  | bool (b : Bool)
  | number (n : Numeral)
  | text (q : Quoted)
  | array (items : List Doc)
  | object (members : List (Quoted × Doc))

/-- A container that is still open: what it holds so far, the latest first. An open object also
holds the key of the member that comes next. -/
inductive Frame where
  | array (done : List Doc)
  | object (done : List (Quoted × Doc)) (key : Quoted)

mutual

/-- Builds a document from tokens where a value has to come next. -/
def valueNext : List Token → List Frame → Option Doc
  | .null :: ts, frames => valueDone .null ts frames
  | .bool b :: ts, frames => valueDone (.bool b) ts frames
  | .numeral n :: ts, frames => valueDone (.number n) ts frames
  | .quoted q :: ts, frames => valueDone (.text q) ts frames
  | .bracketOpen :: .bracketClose :: ts, frames => valueDone (.array []) ts frames
  | .bracketOpen :: ts, frames => valueNext ts (.array [] :: frames)
  | .braceOpen :: .braceClose :: ts, frames => valueDone (.object []) ts frames
  | .braceOpen :: .quoted k :: .colon :: ts, frames => valueNext ts (.object [] k :: frames)
  | _, _ => none

/-- Builds a document from tokens where a value has just ended. -/
def valueDone (d : Doc) : List Token → List Frame → Option Doc
  | [], [] => some d
  | .comma :: ts, .array done :: frames => valueNext ts (.array (d :: done) :: frames)
  | .bracketClose :: ts, .array done :: frames => valueDone (.array (d :: done).reverse) ts frames
  | .comma :: .quoted k :: .colon :: ts, .object done key :: frames =>
    valueNext ts (.object ((key, d) :: done) k :: frames)
  | .braceClose :: ts, .object done key :: frames =>
    valueDone (.object ((key, d) :: done).reverse) ts frames
  | _, _ => none

end

def Doc.ofTokens? (ts : List Token) : Option Doc := valueNext ts []

/-- Reads a document from bytes, of which none may be left over. -/
def Doc.ofBytes? (bs : List UInt8) : Option Doc := do ofTokens? (← Token.scan? bs)

def Doc.ofText? (s : String) : Option Doc := ofBytes? (Text.bytes s)

end Quorate.Json
