/-
Keccak-256: the sponge over the permutation of 1600 bits with a rate of 136 bytes, padded by a one
byte at the front and the top bit at the end of the last block.
-/
import Quorate.Digest

namespace Quorate.Keccak

/-- The state: five rows of five lanes. -/
abbrev State := Vector UInt64 25

/-- The lane in column `x` of row `y`, both counted around. -/
def State.lane (s : State) (x y : Nat) : UInt64 := s.get ⟨x % 5 + 5 * (y % 5), by omega⟩

/-- The state whose lane in column `x` of row `y` is `f x y`. -/
def State.tabulate (f : Nat → Nat → UInt64) : State := Vector.ofFn fun i => f (i % 5) (i / 5)

/-- A lane turned to the left. -/
def rotate (w : UInt64) (n : Nat) : UInt64 :=
  if n = 0 then w else (w <<< n.toUInt64) ||| (w >>> (64 - n).toUInt64)

/-- How far each lane is turned, row by row. -/
def turns : Vector Nat 25 :=
  #v[0, 1, 62, 28, 27, 36, 44, 6, 55, 20, 3, 10, 43, 25, 39, 41, 45, 15, 21, 8, 18, 2, 61, 56, 14]

/-- The constants that tell the rounds apart. -/
def roundConstants : List UInt64 :=
  [0x0000000000000001, 0x0000000000008082, 0x800000000000808A, 0x8000000080008000,
   0x000000000000808B, 0x0000000080000001, 0x8000000080008081, 0x8000000000008009,
   0x000000000000008A, 0x0000000000000088, 0x0000000080008009, 0x000000008000000A,
   0x000000008000808B, 0x800000000000008B, 0x8000000000008089, 0x8000000000008003,
   0x8000000000008002, 0x8000000000000080, 0x000000000000800A, 0x800000008000000A,
   0x8000000080008081, 0x8000000000008080, 0x0000000080000001, 0x8000000080008008]

/-- Adds to each lane the parities of two neighbouring columns. -/
def mixColumns (s : State) : State :=
  let parity : Vector UInt64 5 := Vector.ofFn fun x =>
    s.lane x 0 ^^^ s.lane x 1 ^^^ s.lane x 2 ^^^ s.lane x 3 ^^^ s.lane x 4
  let column (x : Nat) : UInt64 := parity.get ⟨x % 5, by omega⟩
  .tabulate fun x y => s.lane x y ^^^ column (x + 4) ^^^ rotate (column (x + 1)) 1

/-- Turns every lane and moves it to its new place. -/
def moveLanes (s : State) : State :=
  .tabulate fun x y =>
    let source := x + 3 * y
    rotate (s.lane source x) (turns.get ⟨source % 5 + 5 * (x % 5), by omega⟩)

/-- Combines each lane with the two after it in its row. -/
def mixRows (s : State) : State :=
  .tabulate fun x y => s.lane x y ^^^ (~~~ s.lane (x + 1) y &&& s.lane (x + 2) y)

/-- One round. -/
def round (s : State) (constant : UInt64) : State :=
  let mixed := mixRows (moveLanes (mixColumns s))
  mixed.set 0 (mixed.lane 0 0 ^^^ constant)

def permute (s : State) : State := roundConstants.foldl round s

/-- The number of bytes that one block takes in. -/
def rate : Nat := 136

/-- A lane read from bytes, the least significant first. -/
def laneOfBytes (bs : List UInt8) : UInt64 :=
  bs.foldr (fun b w => (w <<< 8) ||| b.toUInt64) 0

/-- The eight bytes of a lane, the least significant first. -/
def laneBytes (w : UInt64) : List UInt8 :=
  [w.toUInt8, (w >>> 8).toUInt8, (w >>> 16).toUInt8, (w >>> 24).toUInt8,
   (w >>> 32).toUInt8, (w >>> 40).toUInt8, (w >>> 48).toUInt8, (w >>> 56).toUInt8]

def addBlock (s : State) (block : List UInt8) : State :=
  .tabulate fun x y => s.lane x y ^^^ laneOfBytes ((block.drop (8 * (x + 5 * y))).take 8)

def absorb : (blocks : Nat) → List UInt8 → State → State
  | 0, _, s => s
  | blocks + 1, bs, s => absorb blocks (bs.drop rate) (permute (addBlock s (bs.take rate)))

/-- Fills a message up to a whole number of blocks. -/
def pad (bs : List UInt8) : List UInt8 :=
  match rate - bs.length % rate with
  | 0 | 1 => bs ++ [0x81]
  | missing + 2 => bs ++ 0x01 :: List.replicate missing 0 ++ [0x80]

/-- The first 32 bytes of a state. -/
def squeeze (s : State) : Digest :=
  ⟨laneBytes (s.lane 0 0) ++ laneBytes (s.lane 1 0) ++ laneBytes (s.lane 2 0) ++
    laneBytes (s.lane 3 0), rfl⟩

end Quorate.Keccak

namespace Quorate

/-- The Keccak-256 digest of bytes. -/
def keccak256 (bs : List UInt8) : Digest :=
  let padded := Keccak.pad bs
  Keccak.squeeze (Keccak.absorb (padded.length / Keccak.rate) padded (Vector.replicate 25 0))

end Quorate
