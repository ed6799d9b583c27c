/-
The settings of one chain in documents, of either notation.
-/
import Quorate.Chain.Form
import Quorate.Settings.Basic
import Quorate.Toml.Scalar

namespace Quorate

open Json in
instance : Form ChainSettings where
  read limit d := do
    let fields ← Fields.ofDoc? ["family", "name", "evm_chain_id"] limit d
    some {
      family := ← fields.optional "family" ChainSettings.defaultFamily Form.read
      name := ← fields.optional "name" "" Form.read
      evmChainId := ← fields.optional "evm_chain_id" none (Reader.nullable Form.read) }
  write s := .object [("family", Form.write s.family), ("name", Form.write s.name),
    ("evm_chain_id", s.evmChainId.elim .null Form.write)]

namespace ChainSettings

open Toml

def text? : Value → Option String
  | .text s => some s
  | _ => none

def chainId? : Value → Option UInt64
  | .integer n => if 0 ≤ n then some (UInt64.ofNat n.toNat) else none
  | _ => none

/-- The settings with what is given for family, name and number. -/
def ofParts? (family name chainId : Option Value) : Option ChainSettings := do
  some {
    family := ← family.elim (some defaultFamily) text?
    name := ← name.elim (some "") text?
    evmChainId := ← chainId.elim (some none) fun v => some <$> chainId? v }

/-- Reads the settings of a chain: a table whose entries are known by name, or an array with the
parts in order. A time has no parts. -/
def ofValue? : Value → Option ChainSettings
  | .table entries =>
    ofParts? (entries.lookup "family") (entries.lookup "name") (entries.lookup "evm_chain_id")
  | .array items => ofParts? items[0]? items[1]? items[2]?
  | .time _ => ofParts? none none none
  | _ => none

end ChainSettings

end Quorate
