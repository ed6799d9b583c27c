/-
Chain settings: which family each chain belongs to, and how it is known there.
-/
import Quorate.Chain.Selector
import Quorate.Table

namespace Quorate

/-- The settings of one chain. -/
structure ChainSettings where
  family : String
  name : String
  evmChainId : Option UInt64
  deriving DecidableEq, Inhabited

namespace ChainSettings

/-- The family that a chain belongs to where none is named. -/
def defaultFamily : String := "evm"

/-- The settings of a chain without a number of its own. -/
def ofFamily (family name : String) : ChainSettings := ⟨family, name, none⟩

/-- The settings of a chain of the default family, which has a number of its own. -/
def evm (name : String) (chainId : UInt64) : ChainSettings := ⟨defaultFamily, name, some chainId⟩

end ChainSettings

/-- The settings of a number of chains. -/
structure Settings where
  chains : Table Selector ChainSettings
  deriving DecidableEq

namespace Settings

def empty : Settings := ⟨∅⟩

instance : Inhabited Settings := ⟨empty⟩

def withChain (s : Settings) (chain : Selector) (settings : ChainSettings) : Settings :=
  ⟨s.chains.insert chain settings⟩

/-- Why settings cannot be read or written. -/
inductive Fault where
  | unreadable
  | malformed
  | unwritable
  | badKey (key : String)
  | blankFamily (chain : Selector)
  | other (text : String)
  deriving DecidableEq

def Fault.message : Fault → String
  | .unreadable => "failed to read"
  | .malformed => "failed to parse settings"
  | .unwritable => "failed to serialize settings"
  | .badKey key => "invalid chain selector key: " ++ key
  | .blankFamily chain => s!"chain {chain} has an empty family"
  | .other text => text

end Settings

end Quorate
