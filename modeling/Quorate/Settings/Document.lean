/-
Settings in TOML. A document has a table `chains`, in which each key is the selector of a chain;
several spellings of one selector are allowed, and of their entries the one under the last key in
text order counts.
-/
import Quorate.Settings.Form
import Quorate.Toml.Document
import Quorate.Toml.Writer

namespace Quorate

open Toml

namespace Settings

/-! ## Reading -/

/-- The entries of the table `chains`, by key text. -/
def entries? (root : List (String × Value)) : Option (Table String ChainSettings) :=
  match root.lookup "chains" with
  | none => some ∅
  | some (.table entries) =>
    Table.ofList <$> entries.mapM fun e => (fun s => (e.1, s)) <$> ChainSettings.ofValue? e.2
  | some _ => none

/-- The selector of an entry. The key is checked first, then the family. -/
def entry (e : String × ChainSettings) : Except Fault (Selector × ChainSettings) :=
  match Selector.parse e.1 with
  | .error _ => .error (.badKey e.1)
  | .ok chain =>
    if Text.allBlank e.2.family then .error (.blankFamily chain) else .ok (chain, e.2)

/-- The settings of entries by key text. They are checked in the order of their keys. -/
def ofEntries (t : Table String ChainSettings) : Except Fault Settings :=
  (fun es => ⟨Table.ofList es⟩) <$> t.entries.mapM entry

def ofToml (s : String) : Except Fault Settings :=
  match parse? s >>= entries? with
  | some t => ofEntries t
  | none => .error .malformed

/-- Reads a document from the bytes of a file, if there is one. -/
def ofFile (content : Option (List UInt8)) : Except Fault Settings :=
  match content >>= Text.ofBytes? with
  | some s => ofToml s
  | none => .error .unreadable

/-- Reads the document that a variable names. The name is trimmed; without one, there are no chains.
-/
def ofVariable (name : Option String) (file : String → Option (List UInt8)) :
    Except Fault Settings :=
  match name.map fun n => Text.trim n.toList with
  | none | some [] => .ok empty
  | some path => ofFile (file (String.ofList path))

/-! ## Writing -/

/-- The chains by the text of their selectors. -/
def byText (s : Settings) : Table String ChainSettings :=
  Table.ofList (s.chains.entries.map fun e => (toString e.1, e.2))

/-- A line that sets a name. -/
def setting (name : String) (text : List Char) : List Char :=
  name.toList ++ [' ', '=', ' '] ++ text ++ ['\n']

def chainLines (e : String × ChainSettings) : List Char :=
  "[chains.".toList ++ e.1.toList ++ [']', '\n'] ++
    setting "family" (writeText e.2.family) ++ setting "name" (writeText e.2.name) ++
    (e.2.evmChainId.elim [] fun n => setting "evm_chain_id" (Nat.toDigits 10 n.toNat))

/-- Whether the number of a chain can be written: it has to fit into 64 bits with a sign. -/
def writable (s : ChainSettings) : Bool := s.evmChainId.all fun n => n.toNat < 0x8000000000000000

/-- The document of the settings, in the order of key text, a blank line between two chains. -/
def toToml (s : Settings) : Except Fault String :=
  if s.chains.isEmpty then .ok "[chains]\n"
  else if s.chains.values.all writable then
    .ok (String.ofList (['\n'].intercalate (s.byText.entries.map chainLines)))
  else .error .unwritable

end Settings

end Quorate
