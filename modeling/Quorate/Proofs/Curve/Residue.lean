/-
Coordinates and multipliers as residues. The arithmetic of numbers below a modulus is that of the
residues, where a prime modulus gives a field.
-/
import Quorate.Curve.Point
import Mathlib.FieldTheory.Finite.Basic

namespace Quorate.Curve

/-- A number below a modulus as a residue. -/
def residue {m : Nat} (a : Fin m) : ZMod m := (a.val : ZMod m)

section Residue

variable {m : Nat}

theorem natCast_ne_zero {n : Nat} (hpos : 0 < n) (hn : n < m) : (n : ZMod m) ≠ 0 := by
  rw [ne_eq, ZMod.natCast_eq_zero_iff]
  intro hdvd
  exact absurd (Nat.le_of_dvd hpos hdvd) (Nat.not_le.2 hn)

theorem two_ne_zero_of_lt (hm : 2 < m) : (2 : ZMod m) ≠ 0 := natCast_ne_zero (n := 2) (by decide) hm

theorem val_residue (a : Fin m) : (residue a).val = a.val := ZMod.val_natCast_of_lt a.isLt

theorem residue_injective : Function.Injective (residue (m := m)) := by
  intro a b h
  have hval := congrArg ZMod.val h
  rw [val_residue, val_residue] at hval
  exact Fin.ext hval

@[simp] theorem residue_inj {a b : Fin m} : residue a = residue b ↔ a = b :=
  residue_injective.eq_iff

@[simp] theorem residue_add (a b : Fin m) : residue (a + b) = residue a + residue b := by
  unfold residue
  rw [Fin.val_add, ZMod.natCast_mod, Nat.cast_add]

@[simp] theorem residue_mul (a b : Fin m) : residue (a * b) = residue a * residue b := by
  unfold residue
  rw [Fin.val_mul, ZMod.natCast_mod, Nat.cast_mul]

@[simp] theorem residue_neg (a : Fin m) : residue (-a) = -residue a := by
  unfold residue
  rw [Fin.val_neg', ZMod.natCast_mod, Nat.cast_sub a.isLt.le, ZMod.natCast_self, zero_sub]

@[simp] theorem residue_sub (a b : Fin m) : residue (a - b) = residue a - residue b := by
  unfold residue
  rw [Fin.val_sub, ZMod.natCast_mod, Nat.cast_add, Nat.cast_sub b.isLt.le, ZMod.natCast_self]
  ring

variable [NeZero m]

@[simp] theorem residue_ofNat (n : Nat) : residue (Fin.ofNat m n) = n := ZMod.natCast_mod n m

@[simp] theorem residue_zero : residue (0 : Fin m) = 0 := (residue_ofNat 0).trans Nat.cast_zero

@[simp] theorem residue_one : residue (1 : Fin m) = 1 := (residue_ofNat 1).trans Nat.cast_one

@[simp] theorem residue_literal (n : Nat) [n.AtLeastTwo] :
    residue (ofNat(n) : Fin m) = OfNat.ofNat n := residue_ofNat n

@[simp] theorem residue_eq_zero {a : Fin m} : residue a = 0 ↔ a = 0 := by
  rw [← residue_zero, residue_inj]

theorem residue_ne_zero {a : Fin m} (ha : a ≠ 0) : residue a ≠ 0 := mt residue_eq_zero.1 ha

theorem neg_ne_zero_of_ne {a : Fin m} (ha : a ≠ 0) : -a ≠ 0 := by
  rw [ne_eq, ← residue_eq_zero, residue_neg, neg_eq_zero]
  exact residue_ne_zero ha

theorem residue_power : ∀ {bits : Nat} {b : Fin m} {e : Nat}, e < 2 ^ bits →
    residue (power 1 bits b e) = residue b ^ e
  | 0, b, e, h => by
    obtain rfl : e = 0 := by simpa using h
    rw [pow_zero]
    exact residue_one
  | bits + 1, b, e, h => by
    have hhalf : e / 2 < 2 ^ bits := by
      rw [pow_succ] at h
      omega
    have hrest : residue (power 1 bits (b * b) (e / 2)) = residue b ^ (2 * (e / 2)) := by
      rw [residue_power hhalf, residue_mul, ← sq, ← pow_mul]
    unfold power
    split
    · rw [residue_mul, hrest, ← pow_succ]
      congr 1
      omega
    · rw [hrest]
      congr 1
      omega

/-- The power to the modulus less two inverts, and takes zero to zero. -/
theorem residue_power_inverse [Fact m.Prime] (hm : m ≤ 2 ^ 256) (hodd : 2 < m) (a : Fin m) :
    residue (power 1 256 a (m - 2)) = (residue a)⁻¹ := by
  rw [residue_power (by omega)]
  by_cases ha : residue a = 0
  · rw [ha, inv_zero, zero_pow (by omega)]
  · apply eq_inv_of_mul_eq_one_left
    rw [← pow_succ, show m - 2 + 1 = m - 1 by omega]
    exact ZMod.pow_card_sub_one_eq_one ha

end Residue

end Quorate.Curve
