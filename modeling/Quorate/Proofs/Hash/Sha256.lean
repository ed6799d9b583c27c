/-
SHA-256 on natural numbers. The kernel computes with natural numbers at once, but with words step by
step, so the digest of given bytes is better found on numbers: a word is its number, and what exceeds
32 bits is taken off. Every operation is shown to be the one on words, and so is the digest.
-/
import Quorate.Hash.Sha256

namespace Quorate.Sha256

/-! ## Words -/

/-- The numbers of words. -/
def numbers {n : Nat} (ws : Vector UInt32 n) : List Nat := ws.toList.map UInt32.toNat

/-- The number of a word turned to the right. -/
def turned (w n : Nat) : Nat := w >>> n ||| (w <<< (32 - n)) % UInt32.size

theorem length_numbers {n : Nat} (ws : Vector UInt32 n) : (numbers ws).length = n := by
  unfold numbers
  rw [List.length_map, Vector.length_toList]

theorem getElem_numbers {n i : Nat} (ws : Vector UInt32 n) (h : i < n)
    (hi : i < (numbers ws).length) : (numbers ws)[i] = ws[i].toNat := by
  simp [numbers]

theorem getD_numbers {n i : Nat} (ws : Vector UInt32 n) (h : i < n) :
    (numbers ws)[i]?.getD 0 = ws[i].toNat := by
  have hi : i < (numbers ws).length := (length_numbers ws).symm ▸ h
  rw [List.getElem?_eq_getElem hi, Option.getD_some, getElem_numbers ws h]

theorem toNat_rotate (w n : UInt32) (hpos : 0 < n.toNat) (hn : n.toNat < 32) :
    (rotate w n).toNat = turned w.toNat n.toNat := by
  have hle : n ≤ 32 := UInt32.le_iff_toNat_le.2 (Nat.le_of_lt hn)
  have hback : (32 - n).toNat = 32 - n.toNat := UInt32.toNat_sub_of_le 32 n hle
  unfold rotate turned
  rw [UInt32.toNat_or, UInt32.toNat_shiftRight, UInt32.toNat_shiftLeft, hback, Nat.mod_eq_of_lt hn,
    Nat.mod_eq_of_lt (by omega : 32 - n.toNat < 32)]

/-! ## Rounds -/

/-- One round on the numbers of the working words. -/
def roundOn : List Nat → Nat → Nat → List Nat
  | [a, b, c, d, e, f, g, h], constant, word =>
    let t1 := (h + (turned e 6 ^^^ turned e 11 ^^^ turned e 25) +
      ((e &&& f) ^^^ ((UInt32.size - 1 - e) &&& g)) + constant + word) % UInt32.size
    let t2 := ((turned a 2 ^^^ turned a 13 ^^^ turned a 22) +
      ((a &&& b) ^^^ (a &&& c) ^^^ (b &&& c))) % UInt32.size
    [(t1 + t2) % UInt32.size, a, b, c, (d + t1) % UInt32.size, e, f, g]
  | s, _, _ => s

/-- The numbers of the next window: the first is gone and one is new. -/
def advanceOn (ws : List Nat) : List Nat :=
  let s0 := turned (ws.getD 1 0) 7 ^^^ turned (ws.getD 1 0) 18 ^^^ (ws.getD 1 0 >>> 3)
  let s1 := turned (ws.getD 14 0) 17 ^^^ turned (ws.getD 14 0) 19 ^^^ (ws.getD 14 0 >>> 10)
  ws.tail ++ [(ws.getD 0 0 + s0 + ws.getD 9 0 + s1) % UInt32.size]

/-- The rounds with the given constants. -/
def roundsOn : List Nat → List Nat → List Nat → List Nat
  | [], s, _ => s
  | constant :: constants, s, ws => roundsOn constants (roundOn s constant (ws.getD 0 0)) (advanceOn ws)

theorem exists_words : ∀ s : State, ∃ a b c d e f g h, s = #v[a, b, c, d, e, f, g, h]
  | ⟨⟨[a, b, c, d, e, f, g, h]⟩, _⟩ => ⟨a, b, c, d, e, f, g, h, rfl⟩

theorem numbers_round (s : State) (constant word : UInt32) :
    numbers (round s constant word) = roundOn (numbers s) constant.toNat word.toNat := by
  obtain ⟨a, b, c, d, e, f, g, h, rfl⟩ := exists_words s
  simp [round, roundOn, numbers, toNat_rotate, UInt32.toNat_not, UInt32.size]

theorem numbers_advance (ws : Window) : numbers ws.advance = advanceOn (numbers ws) := by
  unfold advanceOn
  refine List.ext_getElem (by simp [length_numbers]) fun i hi hi' => ?_
  have h : i < 16 := length_numbers ws.advance ▸ hi
  rw [getElem_numbers _ h]
  unfold Window.advance
  rw [Vector.getElem_ofFn]
  by_cases hlast : i + 1 < 16
  · have htail : i < (numbers ws).tail.length := by
      rw [List.length_tail, length_numbers]
      omega
    rw [dif_pos hlast, List.getElem_append_left htail, List.getElem_tail,
      getElem_numbers ws hlast]
    rfl
  · obtain rfl : i = 15 := by omega
    have htail : (numbers ws).tail.length ≤ 15 := by
      simp [length_numbers]
    rw [dif_neg hlast, List.getElem_append_right htail]
    simp [getD_numbers, toNat_rotate, UInt32.size]

theorem numbers_ofBlock (block : List UInt8) : numbers (Window.ofBlock block) =
    List.ofFn fun i : Fin 16 =>
      BigEndian.decode ((block.drop (4 * i)).take 4) % UInt32.size := by
  unfold numbers Window.ofBlock
  rw [Vector.toList_ofFn, List.map_ofFn]
  rfl

theorem numbers_rounds (step : State × Window → UInt32 → State × Window)
    (hround : ∀ acc constant, numbers (step acc constant).1 =
      roundOn (numbers acc.1) constant.toNat ((numbers acc.2).getD 0 0))
    (hadvance : ∀ acc constant, numbers (step acc constant).2 = advanceOn (numbers acc.2)) :
    ∀ (constants : List UInt32) (acc : State × Window), numbers (constants.foldl step acc).1 =
      roundsOn (constants.map UInt32.toNat) (numbers acc.1) (numbers acc.2)
  | [], _ => rfl
  | constant :: constants, acc => by
    rw [List.foldl_cons, numbers_rounds step hround hadvance constants, hround, hadvance, List.map_cons,
      roundsOn]

/-! ## Messages -/

/-- Takes in one block of 64 bytes. -/
def compressOn (s : List Nat) (block : List UInt8) : List Nat :=
  let words := List.ofFn fun i : Fin 16 =>
    BigEndian.decode ((block.drop (4 * i)).take 4) % UInt32.size
  s.zipWith (fun a b => (a + b) % UInt32.size) (roundsOn (roundConstants.map UInt32.toNat) s words)

def absorbOn : (blocks : Nat) → List UInt8 → List Nat → List Nat
  | 0, _, s => s
  | blocks + 1, bs, s => absorbOn blocks (bs.drop 64) (compressOn s (bs.take 64))

/-- The digest of a message, found on numbers. -/
def hashOn (bs : List UInt8) : List UInt8 :=
  let padded := pad bs
  (absorbOn (padded.length / 64) padded (numbers initial)).flatMap (BigEndian.encode 4)

/-- The keyed digest, found on numbers. -/
def hmacOn (key bs : List UInt8) : List UInt8 :=
  let short := if key.length > 64 then hashOn key else key
  let block := short ++ List.replicate (64 - short.length) 0
  hashOn (block.map (· ^^^ 0x5c) ++ hashOn (block.map (· ^^^ 0x36) ++ bs))

theorem numbers_compress (s : State) (block : List UInt8) :
    numbers (compress s block) = compressOn (numbers s) block := by
  unfold compress compressOn
  dsimp only
  have hrounds := numbers_rounds
    (fun acc constant => (round acc.1 constant acc.2[0], acc.2.advance))
    (fun acc constant => by
      rw [numbers_round, List.getD_eq_getElem?_getD, getD_numbers acc.2 (by decide)])
    (fun acc _ => numbers_advance acc.2) roundConstants (s, Window.ofBlock block)
  rw [← numbers_ofBlock, ← hrounds]
  refine List.ext_getElem (by simp [length_numbers]) fun i hi hi' => ?_
  have h : i < 8 := length_numbers (compress s block) ▸ hi
  rw [getElem_numbers _ h, Vector.getElem_ofFn, List.getElem_zipWith, getElem_numbers _ h,
    getElem_numbers _ h]
  exact UInt32.toNat_add _ _

theorem numbers_absorb : ∀ (blocks : Nat) (bs : List UInt8) (s : State),
    numbers (absorb blocks bs s) = absorbOn blocks bs (numbers s)
  | 0, _, _ => rfl
  | blocks + 1, bs, s => by
    rw [absorb, absorbOn, numbers_absorb blocks, numbers_compress]

theorem hash_eq_hashOn (bs : List UInt8) : hash bs = hashOn bs := by
  unfold hash hashOn
  dsimp only
  rw [← numbers_absorb]
  unfold numbers
  rw [List.flatMap_map]

theorem hmac_eq_hmacOn (key bs : List UInt8) : hmac key bs = hmacOn key bs := by
  unfold hmac hmacOn
  simp only [hash_eq_hashOn]

end Quorate.Sha256
