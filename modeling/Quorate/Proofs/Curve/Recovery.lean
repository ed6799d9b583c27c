/-
Recovery inverts signing. The multiples of the generator are a group with the arithmetic of the
multipliers, so what is recovered is known by its multiplier. A signature tells the point that its
nonce led to by the abscissa and the parity of the ordinate, and from the point follows the key.
-/
import Quorate.Proofs.Curve.Group
import Quorate.Proofs.Curve.Nonce
import Mathlib.Data.ZMod.QuotientGroup

namespace Quorate.Curve

/-! ## The multiples of the generator -/

theorem nonsingular_generator :
    curve.Nonsingular (residue generator.x) (residue generator.y) := by
  rw [nonsingular_iff]
  have h : generator.y * generator.y = generator.x * generator.x * generator.x + 7 := by
    decide +kernel
  have h := congrArg residue h
  simp only [residue_mul, residue_add, residue_literal] at h
  linear_combination h

/-- The generator as a point of the group. -/
def base : curve.Point := .some _ _ nonsingular_generator

theorem generator_names : generator.Names base := ⟨_, rfl⟩

theorem groupOrder_nsmul_base : groupOrder • base = 0 := by
  have hz : (Projective.multiple 256 groupOrder (.ofPoint generator)).z = 0 := by decide +kernel
  have h : Represents (Projective.multiple 256 groupOrder (.ofPoint generator))
      (groupOrder • base) := generator_names.represents.multiple (by decide)
  generalize groupOrder • base = a at h
  cases h with
  | neutral _ => rfl
  | affine _ hscales => exact absurd hz hscales.z_ne_zero

theorem zmultiplesHom_groupOrder : zmultiplesHom curve.Point base groupOrder = 0 := by
  rw [zmultiplesHom_apply, natCast_zsmul, groupOrder_nsmul_base]

/-- The point that a multiplier leads to. -/
noncomputable def multiple : ZMod groupOrder →+ curve.Point :=
  ZMod.lift groupOrder ⟨zmultiplesHom _ base, zmultiplesHom_groupOrder⟩

theorem multiple_natCast (k : Nat) : multiple (k : ZMod groupOrder) = k • base := by
  have h := ZMod.lift_coe groupOrder ⟨zmultiplesHom _ base, zmultiplesHom_groupOrder⟩ (k : Int)
  rw [Int.cast_natCast] at h
  exact h.trans (natCast_zsmul base k)

theorem multiple_one : multiple 1 = base := by
  rw [← Nat.cast_one, multiple_natCast, one_nsmul]

theorem nsmul_multiple (k : Scalar) (c : ZMod groupOrder) :
    k.val • multiple c = multiple (residue k * c) := by
  rw [← map_nsmul, nsmul_eq_mul]
  rfl

/-- The order of the generator is prime, so no multiplier but zero leads to the neutral point. -/
theorem multiple_ne_zero {c : ZMod groupOrder} (hc : c ≠ 0) : multiple c ≠ 0 := by
  intro hzero
  have hbase : base = 0 := by
    calc base = multiple ((c⁻¹.val : ZMod groupOrder) * c) := by
          rw [ZMod.natCast_zmod_val, inv_mul_cancel₀ hc, multiple_one]
      _ = c⁻¹.val • multiple c := by rw [← map_nsmul, nsmul_eq_mul]
      _ = 0 := by rw [hzero, nsmul_zero]
  exact WeierstrassCurve.Affine.Point.some_ne_zero nonsingular_generator hbase

theorem Point.Names.multiplier_ne_zero {pt : Point} {c : ZMod groupOrder}
    (h : pt.Names (multiple c)) : c ≠ 0 := by
  rintro rfl
  obtain ⟨hns, hc⟩ := h
  rw [map_zero] at hc
  exact WeierstrassCurve.Affine.Point.some_ne_zero hns hc.symm

theorem represents_times {pt : Point} {c : ZMod groupOrder} (h : pt.Names (multiple c))
    (k : Scalar) : Represents (times k pt) (multiple (residue k * c)) := by
  rw [← nsmul_multiple]
  have hk : k.val < 2 ^ 256 := k.isLt.trans (by decide)
  exact h.represents.multiple hk

theorem represents_times_generator (k : Scalar) :
    Represents (times k generator) (multiple (residue k)) := by
  have h := represents_times (multiple_one ▸ generator_names) k
  rwa [mul_one] at h

theorem publicKey?_eq_some {secret : Scalar} {key : Point} :
    publicKey? secret = some key ↔ key.Names (multiple (residue secret)) :=
  (represents_times_generator secret).toPoint?_eq_some

theorem exists_publicKey? {secret : Scalar} (h : secret ≠ 0) :
    ∃ key, publicKey? secret = some key :=
  (represents_times_generator secret).exists_toPoint? (multiple_ne_zero (residue_ne_zero h))

/-! ## Points on the curve -/

/-- No multiple of the generator has order two, for the order of the generator is odd. -/
theorem y_ne_zero {pt : Point} {c : ZMod groupOrder} (h : pt.Names (multiple c)) : pt.y ≠ 0 := by
  intro hy
  have htwo : (2 : ZMod groupOrder) ≠ 0 := two_ne_zero_of_lt (by decide)
  apply multiple_ne_zero (mul_ne_zero htwo h.multiplier_ne_zero)
  obtain ⟨_, hc⟩ := h
  rw [two_mul, map_add, hc]
  apply WeierstrassCurve.Affine.Point.add_self_of_Y_eq
  rw [negY_eq, hy, residue_zero, neg_zero]

theorem Point.Names.neg {pt : Point} {a : curve.Point} (h : pt.Names a) :
    (Point.mk pt.x (-pt.y)).Names (-a) := by
  obtain ⟨h, rfl⟩ := h
  rw [WeierstrassCurve.Affine.Point.neg_some, names_some]
  exact ⟨rfl, by rw [residue_neg, negY_eq]⟩

/-- A square has a root, and the root is one of two. -/
theorem sqrt?_mul_self (y : Field) :
    ∃ root, Field.sqrt? (y * y) = some root ∧ (root = y ∨ root = -y) := by
  have hroot : power 1 256 (y * y) ((fieldOrder + 1) / 4) *
      power 1 256 (y * y) ((fieldOrder + 1) / 4) = y * y := by
    have hbits : (fieldOrder + 1) / 4 < 2 ^ 256 := by decide
    have hexponent : 2 * ((fieldOrder + 1) / 4 * 2) = fieldOrder - 1 + 2 := by decide
    apply residue_injective
    rw [residue_mul, residue_power hbits, residue_mul, ← sq, ← pow_mul, ← sq, ← pow_mul, hexponent,
      pow_add]
    by_cases hy : residue y = 0
    · rw [hy]
      ring
    · rw [ZMod.pow_card_sub_one_eq_one hy, one_mul]
  refine ⟨power 1 256 (y * y) ((fieldOrder + 1) / 4), ?_, ?_⟩
  · unfold Field.sqrt?
    simp only [hroot, if_true]
  · have h := congrArg residue hroot
    rwa [residue_mul, residue_mul, mul_self_eq_mul_self_iff, ← residue_neg, residue_inj,
      residue_inj] at h

theorem isOdd_neg {y : Field} (hy : y ≠ 0) : (-y).isOdd = !y.isOdd := by
  have hpos : 0 < y.val := Nat.pos_of_ne_zero fun h => hy (Fin.ext h)
  have hval : (-y).val = fieldOrder - y.val := by
    rw [Fin.val_neg', Nat.mod_eq_of_lt (by omega)]
  have hlt := y.isLt
  have hodd : fieldOrder % 2 = 1 := by decide
  unfold Field.isOdd
  rw [hval]
  by_cases h : y.val % 2 = 1
  · have : (fieldOrder - y.val) % 2 = 0 := by omega
    simp [h, this]
  · have : (fieldOrder - y.val) % 2 = 1 := by omega
    simp [h, this]

theorem lift?_of_names {pt : Point} {c : ZMod groupOrder} (h : pt.Names (multiple c)) :
    lift? pt.x pt.y.isOdd = some pt := by
  have hy := y_ne_zero h
  obtain ⟨hns, _⟩ := h
  have heq : pt.x * pt.x * pt.x + 7 = pt.y * pt.y := by
    apply residue_injective
    rw [nonsingular_iff] at hns
    simp only [residue_mul, residue_add, residue_literal]
    linear_combination -hns
  obtain ⟨root, hroot, hor⟩ := sqrt?_mul_self pt.y
  unfold lift?
  rw [heq, hroot]
  rcases hor with rfl | rfl
  · simp
  · simp [isOdd_neg hy, neg_ne_zero_of_ne hy]

/-! ## Signing and recovery -/

theorem residue_scalarInverse (a : Scalar) : residue (Scalar.inverse a) = (residue a)⁻¹ :=
  residue_power_inverse (by decide) (by decide) a

/-- The point that the nonce of a signature led to, as the signature tells it: the abscissa, and the
parity of the ordinate. -/
structure Recoverable.LedTo (sig : Recoverable) (pt : Point) (c : ZMod groupOrder) : Prop where
  names : pt.Names (multiple c)
  abscissa : sig.r.val + (if sig.id.val < 2 then 0 else groupOrder) = pt.x.val
  parity : (sig.id.val % 2 == 1) = pt.y.isOdd

/-- What is recovered is the key of the multiplier for which the signature is one of the message. -/
theorem Recoverable.LedTo.recover?_eq_some {sig : Recoverable} {pt : Point} {c : ZMod groupOrder}
    (h : sig.LedTo pt c) {message : Nat} {key : Point} :
    sig.recover? message = some key ↔
      key.Names (multiple ((residue sig.r)⁻¹ * (residue sig.s * c - message))) := by
  have hsum := (represents_times h.names (sig.s * Scalar.inverse sig.r)).add
    (represents_times_generator (-(Fin.ofNat groupOrder message * Scalar.inverse sig.r)))
  rw [← map_add] at hsum
  have hmultiplier : residue (sig.s * Scalar.inverse sig.r) * c +
      residue (-(Fin.ofNat groupOrder message * Scalar.inverse sig.r)) =
        (residue sig.r)⁻¹ * (residue sig.s * c - message) := by
    simp only [residue_mul, residue_neg, residue_ofNat, residue_scalarInverse]
    ring
  rw [← hmultiplier, ← hsum.toPoint?_eq_some]
  unfold Recoverable.recover?
  simp only [h.abscissa, pt.x.isLt, dif_pos, h.parity, Option.bind_eq_bind, Option.bind_some,
    lift?_of_names h.names]

/-- Abscissas below the field order are told by what is left modulo the group order, and by whether
something was taken off. -/
theorem abscissa_eq {x : Field} {id : Fin 4} (hid : id.val < 2 ↔ x.val < groupOrder) :
    (Fin.ofNat groupOrder x.val).val + (if id.val < 2 then 0 else groupOrder) = x.val := by
  have hx : x.val < 2 * groupOrder := x.isLt.trans (by decide)
  rw [Fin.val_ofNat]
  by_cases h : x.val < groupOrder
  · rw [if_pos (hid.2 h), Nat.mod_eq_of_lt h, add_zero]
  · rw [if_neg (mt hid.1 h), Nat.mod_eq_sub_mod (Nat.not_lt.1 h), Nat.mod_eq_of_lt (by omega)]
    omega

/-- How a signature is made of a nonce: the nonce leads to a point, and `s` is negated where that
brings it into the lower half. -/
structure Recoverable.MadeOf (sig : Recoverable) (secret message nonce : Scalar) (point : Point)
    (s : Scalar) (high : Bool) : Prop where
  leads : (times nonce generator).toPoint? = some point
  r_eq : sig.r = Fin.ofNat groupOrder point.x.val
  r_ne_zero : sig.r ≠ 0
  solves : s = Scalar.inverse nonce * (message + sig.r * secret)
  s_ne_zero : s ≠ 0
  s_eq : sig.s = if high then -s else s
  id_small : sig.id.val < 2 ↔ point.x.val < groupOrder
  id_odd : (sig.id.val % 2 == 1) = (point.y.isOdd != high)

section MadeOf

variable {secret message nonce s : Scalar} {sig : Recoverable} {point : Point} {high : Bool}

theorem madeOf_of_signWith (h : signWith secret message nonce = some sig) :
    ∃ point s high, sig.MadeOf secret message nonce point s high := by
  unfold signWith at h
  obtain ⟨point, hpoint, h⟩ := Option.bind_eq_some_iff.1 h
  dsimp only at h
  split at h
  · cases h
  rename_i hzero
  obtain ⟨hr, hs⟩ := not_or.1 hzero
  generalize hlarge : decide (groupOrder ≤ point.x.val) = large at h
  generalize hhigh : decide (groupOrder / 2 < Fin.val _) = high at h
  generalize hodd : ((point.y.val % 2 == 1) != high) = odd at h
  have hsmall : large = false ↔ point.x.val < groupOrder := by
    rw [← hlarge, decide_eq_false_iff_not, Nat.not_le]
  obtain rfl := Option.some.inj h
  refine ⟨point, _, high, hpoint, rfl, hr, rfl, hs, ?_, ?_, ?_⟩
  · cases high <;> rfl
  · rw [← hsmall]
    cases large <;> cases odd <;> simp
  · unfold Field.isOdd
    rw [hodd]
    cases large <;> cases odd <;> simp

/-- A signature of a message leads to the nonce's point, or to its negative where `s` is negated. -/
theorem Recoverable.MadeOf.ledTo (h : sig.MadeOf secret message nonce point s high) :
    ∃ pt c, sig.LedTo pt c ∧
      residue sig.s * c = residue message + residue sig.r * residue secret := by
  have hpoint := (represents_times_generator nonce).toPoint?_eq_some.1 h.leads
  have hnonce : residue nonce ≠ 0 := hpoint.multiplier_ne_zero
  have hsolves : residue s * residue nonce =
      residue message + residue sig.r * residue secret := by
    rw [h.solves, residue_mul, residue_scalarInverse, residue_add, residue_mul]
    field_simp
  have habscissa := h.r_eq ▸ abscissa_eq h.id_small
  cases high with
  | false =>
    refine ⟨point, residue nonce, ⟨hpoint, habscissa, ?_⟩, ?_⟩
    · rw [h.id_odd, Bool.bne_false]
    · rw [h.s_eq]
      exact hsolves
  | true =>
    refine ⟨⟨point.x, -point.y⟩, -residue nonce, ⟨?_, habscissa, ?_⟩, ?_⟩
    · rw [map_neg]
      exact hpoint.neg
    · rw [h.id_odd, Bool.bne_true, isOdd_neg (y_ne_zero hpoint)]
    · rw [h.s_eq, if_pos rfl, residue_neg, neg_mul_neg]
      exact hsolves

theorem Recoverable.MadeOf.signed_ne_zero (h : sig.MadeOf secret message nonce point s high) :
    sig.s ≠ 0 := by
  rw [h.s_eq]
  split
  · exact neg_ne_zero_of_ne h.s_ne_zero
  · exact h.s_ne_zero

end MadeOf

/-- Recovery inverts signing: from a signature of a message follows the key that made it. -/
theorem recover?_of_sign? {secret : Scalar} {message : Nat} {sig : Recoverable} {key : Point}
    (hsig : sign? secret message = some sig) (hkey : publicKey? secret = some key) :
    sig.r ≠ 0 ∧ sig.s ≠ 0 ∧ sig.recover? message = some key := by
  obtain ⟨_, _, hfound, _⟩ := sign?_eq_some.1 hsig
  obtain ⟨nonce, _, hnonce⟩ := Option.bind_eq_some_iff.1 hfound
  obtain ⟨point, s, high, hmade⟩ := madeOf_of_signWith hnonce
  obtain ⟨pt, c, hledTo, hsigned⟩ := hmade.ledTo
  refine ⟨hmade.r_ne_zero, hmade.signed_ne_zero, hledTo.recover?_eq_some.2 ?_⟩
  have hsecret : (residue sig.r)⁻¹ * (residue sig.s * c - message) = residue secret := by
    rw [hsigned, residue_ofNat, add_sub_cancel_left]
    exact inv_mul_cancel_left₀ (residue_ne_zero hmade.r_ne_zero) _
  rw [hsecret]
  exact publicKey?_eq_some.1 hkey

end Quorate.Curve
