/-
The points of the curve as a group. Projective coordinates stand for points; doubling and adding
coordinates is adding points, so multiples of coordinates stand for multiples of points.
-/
import Quorate.Proofs.Curve.Primality
import Mathlib.AlgebraicGeometry.EllipticCurve.Affine.Point

namespace Quorate.Curve

open WeierstrassCurve.Affine

/-- The curve over the residues. -/
def curve : WeierstrassCurve.Affine (ZMod fieldOrder) := ⟨0, 0, 0, 0, 7⟩

theorem two_ne_zero_field : (2 : ZMod fieldOrder) ≠ 0 := two_ne_zero_of_lt (by decide)

theorem equation_iff {x y : ZMod fieldOrder} : curve.Equation x y ↔ y ^ 2 = x ^ 3 + 7 := by
  rw [WeierstrassCurve.Affine.equation_iff]
  simp [curve]

theorem nonsingular_iff {x y : ZMod fieldOrder} : curve.Nonsingular x y ↔ y ^ 2 = x ^ 3 + 7 := by
  have hΔ : curve.Δ ≠ 0 := by
    have hvalue : curve.Δ = -((21168 : Nat) : ZMod fieldOrder) := by
      simp only [WeierstrassCurve.Δ, WeierstrassCurve.b₂, WeierstrassCurve.b₄,
        WeierstrassCurve.b₆, WeierstrassCurve.b₈, curve]
      push_cast
      ring
    rw [hvalue, neg_ne_zero]
    exact natCast_ne_zero (by decide) (by decide)
  rw [← equation_iff_nonsingular_of_Δ_ne_zero hΔ, equation_iff]

@[simp] theorem negY_eq (x y : ZMod fieldOrder) : curve.negY x y = -y := by
  simp [negY, curve]

theorem addX_eq (x₁ x₂ ℓ : ZMod fieldOrder) : curve.addX x₁ x₂ ℓ = ℓ ^ 2 - x₁ - x₂ := by
  simp [addX, curve]

theorem addY_eq (x₁ x₂ y₁ ℓ : ZMod fieldOrder) :
    curve.addY x₁ x₂ y₁ ℓ = ℓ * (x₁ - (ℓ ^ 2 - x₁ - x₂)) - y₁ := by
  rw [addY, negAddY, negY_eq, addX_eq]
  ring

/-- A point that is its own negative has no ordinate, the characteristic being odd. -/
theorem ne_negY {x y : ZMod fieldOrder} (hy : y ≠ 0) : y ≠ curve.negY x y := by
  rw [negY_eq, ne_eq, eq_neg_iff_add_eq_zero, ← two_mul]
  exact mul_ne_zero two_ne_zero_field hy

theorem slope_self {x y : ZMod fieldOrder} (hy : y ≠ 0) :
    2 * y * curve.slope x x y y = 3 * x ^ 2 := by
  have hne : 2 * y ≠ 0 := mul_ne_zero two_ne_zero_field hy
  rw [slope_of_Y_ne rfl (ne_negY hy), negY_eq, sub_neg_eq_add, ← two_mul, mul_div_cancel₀ _ hne]
  simp [curve]

theorem slope_of_ne {x₁ x₂ : ZMod fieldOrder} (y₁ y₂ : ZMod fieldOrder) (hx : x₁ ≠ x₂) :
    y₂ = y₁ + curve.slope x₁ x₂ y₁ y₂ * (x₂ - x₁) := by
  rw [slope_of_X_ne hx]
  have hsub : x₁ - x₂ ≠ 0 := sub_ne_zero.2 hx
  field_simp
  ring

/-! ## Coordinates in a scale -/

/-- Projective coordinates are a pair of coordinates in the scale of `z`. -/
structure Scales (p : Projective) (x y : ZMod fieldOrder) : Prop where
  z_ne_zero : p.z ≠ 0
  x_eq : residue p.x = x * residue p.z ^ 2
  y_eq : residue p.y = y * residue p.z ^ 3

namespace Scales

variable {p q : Projective} {x y x₁ y₁ x₂ y₂ ℓ : ZMod fieldOrder}

theorem double_z (h : Scales p x y) : residue p.double.z = 2 * y * residue p.z ^ 4 := by
  simp only [Projective.double, residue_mul, residue_literal, h.y_eq]
  ring

/-- Doubling follows the tangent. -/
theorem double (h : Scales p x y) (hy : y ≠ 0) (hslope : 2 * y * ℓ = 3 * x ^ 2) :
    Scales p.double (ℓ ^ 2 - x - x) (ℓ * (x - (ℓ ^ 2 - x - x)) - y) where
  z_ne_zero := by
    rw [ne_eq, ← residue_eq_zero, h.double_z]
    have hz : residue p.z ≠ 0 := residue_ne_zero h.z_ne_zero
    exact mul_ne_zero (mul_ne_zero two_ne_zero_field hy) (pow_ne_zero 4 hz)
  x_eq := by
    rw [h.double_z]
    simp only [Projective.double, residue_mul, residue_sub, residue_add, residue_literal, h.x_eq,
      h.y_eq]
    -- the slope enters only through what it is multiplied with, the ordinate doubled
    linear_combination (-(3 * x ^ 2 + 2 * y * ℓ) * residue p.z ^ 8) * hslope
  y_eq := by
    rw [h.double_z]
    simp only [Projective.double, residue_mul, residue_sub, residue_add, residue_literal, h.x_eq,
      h.y_eq]
    linear_combination
      ((3 * x ^ 2) ^ 2 + 3 * x ^ 2 * (2 * y * ℓ) + (2 * y * ℓ) ^ 2 - 12 * x * y ^ 2) *
        residue p.z ^ 12 * hslope

section Add

variable (hp : Scales p x₁ y₁) (hq : Scales q x₂ y₂)
include hp hq

theorem scale_ne_zero : residue p.z * residue q.z ≠ 0 :=
  mul_ne_zero (residue_ne_zero hp.z_ne_zero) (residue_ne_zero hq.z_ne_zero)

/-- Brought to one scale, abscissas agree if they agree. -/
theorem cross_x : q.x * (p.z * p.z) - p.x * (q.z * q.z) = 0 ↔ x₁ = x₂ := by
  have hcross : residue (q.x * (p.z * p.z) - p.x * (q.z * q.z)) =
      (x₂ - x₁) * (residue p.z * residue q.z) ^ 2 := by
    simp only [residue_mul, residue_sub, hp.x_eq, hq.x_eq]
    ring
  rw [← residue_eq_zero, hcross, mul_eq_zero_iff_right (pow_ne_zero 2 (scale_ne_zero hp hq)),
    sub_eq_zero, eq_comm]

theorem cross_y : q.y * (p.z * p.z) * p.z - p.y * (q.z * q.z) * q.z = 0 ↔ y₁ = y₂ := by
  have hcross : residue (q.y * (p.z * p.z) * p.z - p.y * (q.z * q.z) * q.z) =
      (y₂ - y₁) * (residue p.z * residue q.z) ^ 3 := by
    simp only [residue_mul, residue_sub, hp.y_eq, hq.y_eq]
    ring
  rw [← residue_eq_zero, hcross, mul_eq_zero_iff_right (pow_ne_zero 3 (scale_ne_zero hp hq)),
    sub_eq_zero, eq_comm]

theorem add_same (hx : x₁ = x₂) (hy : y₁ = y₂) : p.add q = p.double := by
  unfold Projective.add
  rw [if_neg hp.z_ne_zero, if_neg hq.z_ne_zero]
  dsimp only
  rw [if_pos ((cross_x hp hq).2 hx), if_pos ((cross_y hp hq).2 hy)]

theorem add_opposite (hx : x₁ = x₂) (hy : y₁ ≠ y₂) : p.add q = .neutral := by
  unfold Projective.add
  rw [if_neg hp.z_ne_zero, if_neg hq.z_ne_zero]
  dsimp only
  rw [if_pos ((cross_x hp hq).2 hx), if_neg (mt (cross_y hp hq).1 hy)]

/-- Adding follows the chord. -/
theorem add (hx : x₁ ≠ x₂) (hslope : y₂ = y₁ + ℓ * (x₂ - x₁)) :
    Scales (p.add q) (ℓ ^ 2 - x₁ - x₂) (ℓ * (x₁ - (ℓ ^ 2 - x₁ - x₂)) - y₁) := by
  have hcross := mt (cross_x hp hq).1 hx
  unfold Projective.add
  rw [if_neg hp.z_ne_zero, if_neg hq.z_ne_zero]
  dsimp only
  rw [if_neg hcross]
  refine ⟨?_, ?_, ?_⟩
  · rw [ne_eq, ← residue_eq_zero, residue_mul, residue_mul, mul_assoc]
    exact mul_ne_zero (residue_ne_zero hcross) (scale_ne_zero hp hq)
  · simp only [residue_mul, residue_sub, residue_literal, hp.x_eq, hp.y_eq, hq.x_eq, hq.y_eq,
      hslope]
    ring
  · simp only [residue_mul, residue_sub, residue_literal, hp.x_eq, hp.y_eq, hq.x_eq, hq.y_eq,
      hslope]
    ring

end Add

end Scales

/-! ## Coordinates that stand for a point -/

/-- Projective coordinates stand for a point. -/
inductive Represents : Projective → curve.Point → Prop
  | neutral {p : Projective} : p.z = 0 → Represents p 0
  | affine {p : Projective} {x y : ZMod fieldOrder} (h : curve.Nonsingular x y) :
      Scales p x y → Represents p (.some x y h)

namespace Represents

variable {p q : Projective} {a b : curve.Point}

theorem double (h : Represents p a) : Represents p.double (a + a) := by
  cases h with
  | neutral hz =>
    rw [add_zero]
    refine .neutral ?_
    rw [← residue_eq_zero] at hz ⊢
    simp [Projective.double, hz]
  | @affine x y h hp =>
    by_cases hy : y = 0
    · rw [Point.add_self_of_Y_eq (by rw [negY_eq, hy, neg_zero])]
      refine .neutral ?_
      rw [← residue_eq_zero, hp.double_z, hy]
      ring
    · rw [Point.add_self_of_Y_ne (ne_negY hy)]
      refine .affine _ ?_
      rw [addX_eq, addY_eq]
      exact hp.double hy (slope_self hy)

theorem add (hp : Represents p a) (hq : Represents q b) : Represents (p.add q) (a + b) := by
  cases hp with
  | neutral hpz =>
    rw [zero_add, Projective.add, if_pos hpz]
    exact hq
  | @affine x₁ y₁ h₁ hp =>
    cases hq with
    | neutral hqz =>
      rw [add_zero, Projective.add, if_neg hp.z_ne_zero, if_pos hqz]
      exact .affine h₁ hp
    | @affine x₂ y₂ h₂ hq =>
      by_cases hx : x₁ = x₂
      · by_cases hy : y₁ = y₂
        · rw [hp.add_same hq hx hy]
          subst hx hy
          exact (Represents.affine h₁ hp).double
        · rw [hp.add_opposite hq hx hy,
            Point.add_of_Y_eq hx ((Y_eq_of_X_eq h₁.1 h₂.1 hx).resolve_left hy)]
          exact .neutral rfl
      · rw [Point.add_of_X_ne hx]
        refine .affine _ ?_
        rw [addX_eq, addY_eq]
        exact hp.add hq hx (slope_of_ne y₁ y₂ hx)

theorem multiple : ∀ {bits k : Nat} {p : Projective} {a : curve.Point}, k < 2 ^ bits →
    Represents p a → Represents (Projective.multiple bits k p) (k • a)
  | 0, k, p, a, hk, _ => by
    obtain rfl : k = 0 := by simpa using hk
    rw [zero_nsmul]
    exact .neutral rfl
  | bits + 1, k, p, a, hk, h => by
    have hhalf : k / 2 < 2 ^ bits := by
      rw [pow_succ] at hk
      omega
    -- half as many multiples of the double, and one more where the bit is set
    have hrest := multiple hhalf h.double
    rw [← two_nsmul, ← mul_nsmul] at hrest
    unfold Projective.multiple
    split
    · have hsum := hrest.add h
      rwa [← succ_nsmul, show 2 * (k / 2) + 1 = k by omega] at hsum
    · rwa [show 2 * (k / 2) = k by omega] at hrest

end Represents

/-! ## Points with two coordinates -/

/-- A pair of coordinates is a point of the curve. -/
def Point.Names (pt : Point) (a : curve.Point) : Prop :=
  ∃ h, a = .some (residue pt.x) (residue pt.y) h

theorem Point.names_some {pt : Point} {x y : ZMod fieldOrder} {h : curve.Nonsingular x y} :
    pt.Names (.some x y h) ↔ residue pt.x = x ∧ residue pt.y = y := by
  constructor
  · rintro ⟨_, heq⟩
    rw [WeierstrassCurve.Affine.Point.some.injEq] at heq
    exact ⟨heq.1.symm, heq.2.symm⟩
  · rintro ⟨rfl, rfl⟩
    exact ⟨h, rfl⟩

theorem Point.Names.represents {pt : Point} {a : curve.Point} (h : pt.Names a) :
    Represents (.ofPoint pt) a := by
  obtain ⟨h, rfl⟩ := h
  refine .affine h ⟨Fin.zero_ne_one.symm, ?_, ?_⟩
  · simp [Projective.ofPoint]
  · simp [Projective.ofPoint]

theorem residue_inverse (a : Field) : residue (Field.inverse a) = (residue a)⁻¹ :=
  residue_power_inverse (by decide) (by decide) a

theorem Represents.toPoint?_eq_some {p : Projective} {a : curve.Point} {pt : Point}
    (h : Represents p a) : p.toPoint? = some pt ↔ pt.Names a := by
  unfold Projective.toPoint?
  cases h with
  | neutral hz => simp [Point.Names, hz, WeierstrassCurve.Affine.Point.zero_def]
  | @affine x y h hp =>
    have hz : residue p.z ≠ 0 := residue_ne_zero hp.z_ne_zero
    have hpx : residue (p.x * (Field.inverse p.z * Field.inverse p.z)) = x := by
      simp only [residue_mul, residue_inverse, hp.x_eq]
      field_simp
    have hpy : residue (p.y * (Field.inverse p.z * Field.inverse p.z) * Field.inverse p.z) = y := by
      simp only [residue_mul, residue_inverse, hp.y_eq]
      field_simp
    rw [if_neg hp.z_ne_zero, Point.names_some, ← hpx, ← hpy, residue_inj, residue_inj,
      Option.some.injEq, eq_comm]
    exact Iff.of_eq (Point.mk.injEq pt.x pt.y _ _)

/-- Coordinates of any point but the neutral one lead to it. -/
theorem Represents.exists_toPoint? {p : Projective} {a : curve.Point} (h : Represents p a)
    (ha : a ≠ 0) : ∃ pt, p.toPoint? = some pt := by
  cases h with
  | neutral _ => exact absurd rfl ha
  | affine _ hp =>
    unfold Projective.toPoint?
    rw [if_neg hp.z_ne_zero]
    exact ⟨_, rfl⟩

end Quorate.Curve
