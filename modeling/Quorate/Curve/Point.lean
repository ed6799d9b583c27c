/-
The curve secp256k1: y² = x³ + 7 over a prime field, with a generator of prime order. Points are
added in projective coordinates (x/z², y/z³), which need no division on the way.
-/
import Quorate.BigEndian

namespace Quorate.Curve

/-- The order of the field. -/
def fieldOrder : Nat := 0xFFFFFFFFFFFFFFFFFFFFFFFFFFFFFFFFFFFFFFFFFFFFFFFFFFFFFFFEFFFFFC2F

/-- The order of the generator. -/
def groupOrder : Nat := 0xFFFFFFFFFFFFFFFFFFFFFFFFFFFFFFFEBAAEDCE6AF48A03BBFD25E8CD0364141

instance : @NeZero Nat Zero.ofOfNat0 fieldOrder := ⟨Nat.succ_ne_zero _⟩

instance : @NeZero Nat Zero.ofOfNat0 groupOrder := ⟨Nat.succ_ne_zero _⟩

abbrev Field := Fin fieldOrder

/-- Multipliers of points. -/
abbrev Scalar := Fin groupOrder

/-- A power, over the given number of bits of the exponent. -/
def power {α : Type} [Mul α] (one : α) : (bits : Nat) → α → Nat → α
  | 0, _, _ => one
  | bits + 1, b, e =>
    let rest := power one bits (b * b) (e / 2)
    if e % 2 = 1 then rest * b else rest

/-- The inverse of a coordinate: the modulus is prime, so by Fermat it is the power to the modulus
less two. -/
def Field.inverse (a : Field) : Field := power 1 256 a (fieldOrder - 2)

/-- The inverse of a multiplier, by Fermat likewise. -/
def Scalar.inverse (a : Scalar) : Scalar := power 1 256 a (groupOrder - 2)

/-- A square root, if there is one. The field order leaves 3 modulo 4, so a power gives it. -/
def Field.sqrt? (a : Field) : Option Field :=
  let root := power 1 256 a ((fieldOrder + 1) / 4)
  if root * root = a then some root else none

/-- A point other than the neutral one. -/
structure Point where
  x : Field
  y : Field
  deriving DecidableEq

/-- A point in projective coordinates; `z` is zero for the neutral point. -/
structure Projective where
  x : Field
  y : Field
  z : Field

namespace Projective

def neutral : Projective := ⟨1, 1, 0⟩

/-- A point with `z` one. -/
def ofPoint (p : Point) : Projective := ⟨p.x, p.y, 1⟩

/-- The point, unless it is the neutral one. -/
def toPoint? (p : Projective) : Option Point :=
  if p.z = 0 then none
  else
    let inv := Field.inverse p.z
    let inv2 := inv * inv
    some ⟨p.x * inv2, p.y * inv2 * inv⟩

def double (p : Projective) : Projective :=
  let a := p.x * p.x
  let b := p.y * p.y
  let c := b * b
  let t := p.x + b
  let d := 2 * (t * t - a - c)
  let e := 3 * a
  let x := e * e - 2 * d
  ⟨x, e * (d - x) - 8 * c, 2 * p.y * p.z⟩

def add (p q : Projective) : Projective :=
  if p.z = 0 then q
  else if q.z = 0 then p
  else
    let pz2 := p.z * p.z
    let qz2 := q.z * q.z
    let u := p.x * qz2
    let s := p.y * qz2 * q.z
    let h := q.x * pz2 - u
    let r := q.y * pz2 * p.z - s
    if h = 0 then if r = 0 then double p else neutral
    else
      let h2 := h * h
      let h3 := h2 * h
      let v := u * h2
      let x := r * r - h3 - 2 * v
      ⟨x, r * (v - x) - s * h3, h * p.z * q.z⟩

/-- A multiple, over the given number of bits of the multiplier. -/
def multiple : (bits : Nat) → Nat → Projective → Projective
  | 0, _, _ => neutral
  | bits + 1, k, p =>
    let rest := multiple bits (k / 2) (double p)
    if k % 2 = 1 then add rest p else rest

end Projective

def generator : Point :=
  ⟨0x79BE667EF9DCBBAC55A06295CE870B07029BFCDB2DCE28D959F2815B16F81798,
   0x483ADA7726A3C4655DA4FBFC0E1108A8FD17B448A68554199C47D08FFB10D4B8⟩

def times (k : Scalar) (p : Point) : Projective :=
  Projective.multiple 256 k.val (.ofPoint p)

def Field.isOdd (a : Field) : Bool := a.val % 2 == 1

/-- The point with a given abscissa whose ordinate is odd or even as asked. -/
def lift? (x : Field) (odd : Bool) : Option Point := do
  let y ← Field.sqrt? (x * x * x + 7)
  let flip := y.isOdd != odd
  if flip && y == 0 then none else some ⟨x, if flip then -y else y⟩

/-- Whether the coordinates lie on the curve. -/
def Point.onCurve (p : Point) : Bool := p.y * p.y == p.x * p.x * p.x + 7

/-- The long form of a point: a mark and both coordinates. -/
def Point.toBytes (p : Point) : List UInt8 :=
  4 :: BigEndian.encode 32 p.x.val ++ BigEndian.encode 32 p.y.val

def coordinate? (bs : List UInt8) : Option Field :=
  let n := BigEndian.decode bs
  if h : n < fieldOrder then some ⟨n, h⟩ else none

/-- Whether a mark may stand before both coordinates of a point. One mark fits every point, and two
more tell the parity of the ordinate, which has to agree. -/
def Point.fitsMark (p : Point) (mark : UInt8) : Bool :=
  mark == 4 || mark == (if p.y.isOdd then 7 else 6)

/-- Reads the long form of a point, or the short one: a mark for the parity of the ordinate, and the
abscissa. -/
def Point.ofBytes? (bs : List UInt8) : Option Point :=
  match bs with
  | [] => none
  | mark :: rest =>
    if rest.length = 64 then do
      let p := Point.mk (← coordinate? (rest.take 32)) (← coordinate? (rest.drop 32))
      if p.onCurve && p.fitsMark mark then some p else none
    else if (mark = 2 ∨ mark = 3) ∧ rest.length = 32 then do
      lift? (← coordinate? rest) (mark == 3)
    else none

end Quorate.Curve
