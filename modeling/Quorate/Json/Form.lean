/-
Types with a form in documents: how a value is read and how it is written.
-/
import Quorate.Json.Record
import Quorate.Json.Writer

namespace Quorate.Json

/-- A form in documents. -/
class Form (α : Type) where
  read : Reader α
  write : α → Value

/-- Reads a whole text in the form of a type. -/
def parse? (α : Type) [Form α] (s : String) : Option α := (Form.read : Reader α).ofText? s

def toText {α : Type} [Form α] (a : α) : String := (Form.write a).toText

def toPretty {α : Type} [Form α] (a : α) : String := (Form.write a).toPretty

instance : Form String := ⟨Reader.text, .string⟩

instance : Form Bool := ⟨Reader.truth, .bool⟩

instance : Form UInt8 := ⟨Reader.byte, fun n => .number (.int n.toNat)⟩

instance : Form UInt32 := ⟨Reader.word, fun n => .number (.int n.toNat)⟩

instance : Form UInt64 := ⟨Reader.count, fun n => .number (.int n.toNat)⟩

instance : Form Value := ⟨Reader.value, id⟩

instance {α : Type} [Form α] : Form (List α) :=
  ⟨Reader.list Form.read, fun as => .array (as.map Form.write)⟩

/-- Members that are present. -/
def present {α : Type} [Form α] (name : String) : Option α → List (String × Value)
  | some a => [(name, Form.write a)]
  | none => []

end Quorate.Json
