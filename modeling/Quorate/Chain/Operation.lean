/-
What a proposal knows of a chain, and the calls that it wants made there.
-/
import Quorate.Chain.Selector
import Quorate.Digest
import Quorate.Json.Value

namespace Quorate

/-- What a proposal knows of a chain: the count of operations that it starts from, the address of
the contract that takes them, and extras that only the chain's own side reads. -/
structure Metadata where
  startingCount : UInt64
  contract : String
  extras : Option Json.Value
  deriving BEq, Inhabited

/-- Notes on a call: the type of contract that it goes to, and tags. -/
structure Labels where
  contractType : String
  tags : List String
  deriving DecidableEq, Inhabited

/-- A call: where it goes, the bytes that it carries, extras that only the chain's own side reads,
and notes. -/
structure Call where
  target : String
  data : List UInt8
  extras : Json.Value
  labels : Labels
  deriving BEq, Inhabited

/-- A call on a chain. -/
structure Operation where
  chain : Selector
  call : Call
  deriving BEq, Inhabited

/-- The root that a chain holds, and when it expires. -/
structure RootInfo where
  root : Digest
  validUntil : UInt32
  deriving DecidableEq, Inhabited

/-- What comes back from a submission: the transaction's name, the family of its chain, and the
answer of the chain as it came. -/
structure Receipt where
  transaction : String
  family : String
  raw : Option Json.Value
  deriving BEq, Inhabited

/-- A call in readable form: the method, and its arguments beside their names. -/
structure DecodedCall where
  method : String
  names : List String
  arguments : List Json.Value
  deriving BEq, Inhabited

end Quorate
