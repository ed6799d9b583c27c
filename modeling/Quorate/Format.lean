/-
Faults of the written forms: why a text or a run of bytes is no digest and no address.
-/
import Quorate.Hex

namespace Quorate

/-- Why a text is not an address. -/
inductive AddressFault where
  | unmarked (text : String)
  | bodyLength (found : Nat)
  | badCharacter (text : String)
  | badChecksum (text : String)
  | badBody (text : String)
  deriving DecidableEq, Repr

def AddressFault.message : AddressFault → String
  | .unmarked text => s!"missing 0x prefix: {text}"
  | .bodyLength found => s!"expected 40 hex characters, got {found}"
  | .badCharacter text => s!"invalid address characters: {text}"
  | .badChecksum text => s!"invalid EIP-55 checksum: {text}"
  | .badBody text => s!"expected 40 hex characters: {text}"

/-- Why a text or a run of bytes is not a value of fixed width. -/
inductive FormatError where
  | hex (fault : Hex.Fault)
  | length (expected found : Nat)
  | address (fault : AddressFault)
  deriving DecidableEq, Repr

def FormatError.message : FormatError → String
  | .hex fault => "invalid hex: " ++ fault.message
  | .length expected found => s!"invalid length: expected {expected} bytes, got {found}"
  | .address fault => "invalid address: " ++ fault.message

end Quorate
