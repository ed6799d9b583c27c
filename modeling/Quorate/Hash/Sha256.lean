/-
SHA-256, and the keyed digest HMAC built on it.
-/
import Quorate.BigEndian

namespace Quorate.Sha256

/-- The chaining value: eight words. -/
abbrev State := Vector UInt32 8

/-- A word turned to the right. -/
def rotate (w : UInt32) (n : UInt32) : UInt32 := (w >>> n) ||| (w <<< (32 - n))

/-- The chaining value before the first block. -/
def initial : State :=
  #v[0x6a09e667, 0xbb67ae85, 0x3c6ef372, 0xa54ff53a, 0x510e527f, 0x9b05688c, 0x1f83d9ab, 0x5be0cd19]

/-- The constants of the 64 rounds. -/
def roundConstants : List UInt32 :=
  [0x428a2f98, 0x71374491, 0xb5c0fbcf, 0xe9b5dba5, 0x3956c25b, 0x59f111f1, 0x923f82a4, 0xab1c5ed5,
   0xd807aa98, 0x12835b01, 0x243185be, 0x550c7dc3, 0x72be5d74, 0x80deb1fe, 0x9bdc06a7, 0xc19bf174,
   0xe49b69c1, 0xefbe4786, 0x0fc19dc6, 0x240ca1cc, 0x2de92c6f, 0x4a7484aa, 0x5cb0a9dc, 0x76f988da,
   0x983e5152, 0xa831c66d, 0xb00327c8, 0xbf597fc7, 0xc6e00bf3, 0xd5a79147, 0x06ca6351, 0x14292967,
   0x27b70a85, 0x2e1b2138, 0x4d2c6dfc, 0x53380d13, 0x650a7354, 0x766a0abb, 0x81c2c92e, 0x92722c85,
   0xa2bfe8a1, 0xa81a664b, 0xc24b8b70, 0xc76c51a3, 0xd192e819, 0xd6990624, 0xf40e3585, 0x106aa070,
   0x19a4c116, 0x1e376c08, 0x2748774c, 0x34b0bcb5, 0x391c0cb3, 0x4ed8aa4a, 0x5b9cca4f, 0x682e6ff3,
   0x748f82ee, 0x78a5636f, 0x84c87814, 0x8cc70208, 0x90befffa, 0xa4506ceb, 0xbef9a3f7, 0xc67178f2]

/-- One round on the working words, with one word of the schedule. -/
def round (s : State) (constant word : UInt32) : State :=
  let a := s[0]; let b := s[1]; let c := s[2]; let e := s[4]; let f := s[5]; let g := s[6]
  let t1 := s[7] + (rotate e 6 ^^^ rotate e 11 ^^^ rotate e 25) +
    ((e &&& f) ^^^ (~~~ e &&& g)) + constant + word
  let t2 := (rotate a 2 ^^^ rotate a 13 ^^^ rotate a 22) +
    ((a &&& b) ^^^ (a &&& c) ^^^ (b &&& c))
  #v[t1 + t2, a, b, c, s[3] + t1, e, f, g]

/-- The schedule seen through a window of sixteen words. -/
abbrev Window := Vector UInt32 16

/-- The window one word further on. -/
def Window.advance (w : Window) : Window :=
  let s0 := rotate w[1] 7 ^^^ rotate w[1] 18 ^^^ (w[1] >>> 3)
  let s1 := rotate w[14] 17 ^^^ rotate w[14] 19 ^^^ (w[14] >>> 10)
  let next := w[0] + s0 + w[9] + s1
  .ofFn fun i => if h : i.val + 1 < 16 then w.get ⟨i.val + 1, h⟩ else next

/-- The first window: the words of a block. -/
def Window.ofBlock (block : List UInt8) : Window :=
  .ofFn fun i => (BigEndian.decode ((block.drop (4 * i)).take 4)).toUInt32

/-- Takes in one block of 64 bytes. -/
def compress (s : State) (block : List UInt8) : State :=
  let final := roundConstants.foldl
    (fun (acc : State × Window) k => (round acc.1 k acc.2[0], acc.2.advance))
    (s, Window.ofBlock block)
  .ofFn fun i => s.get i + final.1.get i

/-- Fills a message up to whole blocks: a one bit, zeros, and the length in bits. -/
def pad (bs : List UInt8) : List UInt8 :=
  let zeros := (119 - bs.length % 64) % 64
  bs ++ 0x80 :: List.replicate zeros 0 ++ BigEndian.encode 8 (8 * bs.length)

def absorb : (blocks : Nat) → List UInt8 → State → State
  | 0, _, s => s
  | blocks + 1, bs, s => absorb blocks (bs.drop 64) (compress s (bs.take 64))

def hash (bs : List UInt8) : List UInt8 :=
  let padded := pad bs
  (absorb (padded.length / 64) padded initial).toList.flatMap fun w => BigEndian.encode 4 w.toNat

/-- The keyed digest of bytes. -/
def hmac (key bs : List UInt8) : List UInt8 :=
  let short := if key.length > 64 then hash key else key
  let block := short ++ List.replicate (64 - short.length) 0
  hash (block.map (· ^^^ 0x5c) ++ hash (block.map (· ^^^ 0x36) ++ bs))

end Quorate.Sha256
