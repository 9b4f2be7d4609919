import Mathlib.AlgebraicGeometry.EllipticCurve.Affine.Point
import Mathlib.Tactic.FieldSimp
import SigOps.Curve.Jacobian
import SigOps.Proofs.Curve.Primality

namespace SigOps.Curve

open WeierstrassCurve.Affine

def secp256k1 : WeierstrassCurve.Affine (ZMod fieldPrime) := ⟨0, 0, 0, 0, 7⟩

abbrev GroupPoint := Point secp256k1

theorem two_ne_zero_of_field : (2 : ZMod fieldPrime) ≠ 0 := by
  rw [← residue_numeral, ne_eq, residue_eq_zero_iff]
  decide

theorem discriminant_ne_zero : secp256k1.Δ ≠ 0 := by
  have hvalue : secp256k1.Δ = residue (-21168 : Coordinate) := by
    simp only [secp256k1, WeierstrassCurve.Δ, WeierstrassCurve.b₂, WeierstrassCurve.b₄,
      WeierstrassCurve.b₆, WeierstrassCurve.b₈, residue_neg, residue_numeral]
    norm_num
  rw [hvalue, ne_eq, residue_eq_zero_iff]
  decide

theorem equation_iff_cubic (x y : ZMod fieldPrime) :
    secp256k1.Equation x y ↔ y ^ 2 = x ^ 3 + 7 := by
  rw [equation_iff]
  simp [secp256k1]

theorem nonsingular_iff_cubic (x y : ZMod fieldPrime) :
    secp256k1.Nonsingular x y ↔ y ^ 2 = x ^ 3 + 7 := by
  rw [← equation_iff_nonsingular_of_Δ_ne_zero discriminant_ne_zero, equation_iff_cubic]

theorem onCurve_iff (x y : Coordinate) :
    OnCurve x y ↔ secp256k1.Nonsingular (residue x) (residue y) := by
  rw [nonsingular_iff_cubic, OnCurve, ← residue_inj, cubic, residue_mul, residue_add, residue_mul,
    residue_mul, residue_numeral]
  constructor <;> intro heq <;> linear_combination heq

theorem negY_eq (x y : ZMod fieldPrime) : secp256k1.negY x y = -y := by
  simp [negY, secp256k1]

theorem eq_zero_of_eq_neg {y : ZMod fieldPrime} (hy : y = -y) : y = 0 := by
  have htwice : 2 * y = 0 := by linear_combination hy
  exact (mul_eq_zero.mp htwice).resolve_left two_ne_zero_of_field

namespace Jacobian

def affineX (triple : Jacobian) : ZMod fieldPrime := residue triple.x / residue triple.z ^ 2

def affineY (triple : Jacobian) : ZMod fieldPrime := residue triple.y / residue triple.z ^ 3

-- Every triple with z = 0 stands for the point at infinity, the neutral element.
inductive Represents : Jacobian → GroupPoint → Prop where
  | infinity {triple : Jacobian} (hz : triple.z = 0) : Represents triple 0
  | finite {triple : Jacobian} (hz : triple.z ≠ 0)
      (hpoint : secp256k1.Nonsingular triple.affineX triple.affineY) :
      Represents triple (.some _ _ hpoint)

theorem represents_some {triple : Jacobian} {x y : ZMod fieldPrime}
    (hpoint : secp256k1.Nonsingular x y) (hz : triple.z ≠ 0) (hx : x = triple.affineX)
    (hy : y = triple.affineY) : Represents triple (.some x y hpoint) := by
  subst hx hy
  exact .finite hz hpoint

theorem represents_ofAffine {x y : Coordinate}
    (hpoint : secp256k1.Nonsingular (residue x) (residue y)) :
    Represents (ofAffine x y) (.some _ _ hpoint) := by
  have hone : (1 : Coordinate) ≠ 0 := by decide
  apply represents_some hpoint hone <;> simp [ofAffine, affineX, affineY]

-- The line through two points that are not opposite meets the curve once more, and the sum is the
-- opposite of that point.
theorem represents_sum_of_line {triple : Jacobian} {x₁ y₁ x₂ y₂ slope : ZMod fieldPrime}
    (hfirst : secp256k1.Nonsingular x₁ y₁) (hsecond : secp256k1.Nonsingular x₂ y₂)
    (hopposite : ¬(x₁ = x₂ ∧ y₁ = -y₂)) (hslope : secp256k1.slope x₁ x₂ y₁ y₂ = slope)
    (hz : triple.z ≠ 0) (hx : slope ^ 2 - x₁ - x₂ = triple.affineX)
    (hy : slope * (x₁ - triple.affineX) - y₁ = triple.affineY) :
    Represents triple (.some x₁ y₁ hfirst + .some x₂ y₂ hsecond) := by
  rw [← negY_eq x₂] at hopposite
  have hsumX : secp256k1.addX x₁ x₂ slope = triple.affineX := by
    rw [← hx, addX]
    simp [secp256k1]
  rw [Point.add_some hopposite]
  apply represents_some _ hz
  · rw [hslope, hsumX]
  · rw [hslope, addY, negAddY, negY_eq, hsumX, ← hy]
    ring

theorem Represents.double {triple : Jacobian} {point : GroupPoint}
    (hrep : Represents triple point) : Represents triple.double (point + point) := by
  cases hrep with
  | infinity hz =>
      rw [add_zero]
      exact .infinity (by simp [Jacobian.double, hz])
  | finite hz hpoint =>
      have hz' : residue triple.z ≠ 0 := residue_eq_zero_iff.not.mpr hz
      have htwo := two_ne_zero_of_field
      by_cases hy : triple.y = 0
      · have hopposite : triple.affineY = secp256k1.negY triple.affineX triple.affineY := by
          rw [negY_eq, affineY, hy, residue_zero, zero_div, neg_zero]
        rw [Point.add_self_of_Y_eq hopposite]
        exact .infinity (by simp [Jacobian.double, hy])
      · have hy' : residue triple.y ≠ 0 := residue_eq_zero_iff.not.mpr hy
        have haffine : triple.affineY ≠ 0 := div_ne_zero hy' (pow_ne_zero 3 hz')
        have hne : triple.affineY ≠ -triple.affineY := fun heq => haffine (eq_zero_of_eq_neg heq)
        have hslope : secp256k1.slope triple.affineX triple.affineX triple.affineY triple.affineY =
            3 * triple.affineX ^ 2 / (2 * triple.affineY) := by
          rw [slope_of_Y_ne rfl (by rwa [negY_eq]), negY_eq]
          simp [secp256k1, two_mul]
        have hscale : triple.double.z ≠ 0 := by
          rw [ne_eq, ← residue_eq_zero_iff]
          simp [Jacobian.double, hy', hz', htwo]
        apply represents_sum_of_line hpoint hpoint (fun heq => hne heq.2) hslope hscale
        · simp only [affineX, affineY, Jacobian.double, residue_sub, residue_mul, residue_numeral]
          field_simp
          ring
        · simp only [affineX, affineY, Jacobian.double, residue_sub, residue_mul, residue_numeral]
          field_simp
          ring

-- Over a common denominator, the point where the chord through two points meets the curve again.
theorem chordX {x₁ z₁ x₂ z₂ run rise : ZMod fieldPrime} (hz₁ : z₁ ≠ 0) (hz₂ : z₂ ≠ 0)
    (hrun : run ≠ 0) (hdef : run = x₂ * z₁ ^ 2 - x₁ * z₂ ^ 2) :
    (rise / (run * z₁ * z₂)) ^ 2 - x₁ / z₁ ^ 2 - x₂ / z₂ ^ 2 =
      (rise ^ 2 - run ^ 3 - 2 * (x₁ * z₂ ^ 2 * run ^ 2)) / (z₁ * z₂ * run) ^ 2 := by
  have hx₂ : x₂ = (run + x₁ * z₂ ^ 2) / z₁ ^ 2 := by
    rw [eq_div_iff (pow_ne_zero 2 hz₁), hdef]
    ring
  rw [hx₂]
  field_simp
  ring

theorem chordY {x₁ y₁ z₁ z₂ run rise x : ZMod fieldPrime} (hz₁ : z₁ ≠ 0) (hz₂ : z₂ ≠ 0)
    (hrun : run ≠ 0) :
    rise / (run * z₁ * z₂) * (x₁ / z₁ ^ 2 - x / (z₁ * z₂ * run) ^ 2) - y₁ / z₁ ^ 3 =
      (rise * (x₁ * z₂ ^ 2 * run ^ 2 - x) - y₁ * z₂ ^ 3 * run ^ 3) / (z₁ * z₂ * run) ^ 3 := by
  field_simp

theorem affineX_eq_iff {left right : Jacobian} (hzl : left.z ≠ 0) (hzr : right.z ≠ 0) :
    left.affineX = right.affineX ↔
      left.x * (right.z * right.z) = right.x * (left.z * left.z) := by
  have hl : residue left.z ≠ 0 := residue_eq_zero_iff.not.mpr hzl
  have hr : residue right.z ≠ 0 := residue_eq_zero_iff.not.mpr hzr
  rw [affineX, affineX, div_eq_div_iff (pow_ne_zero 2 hl) (pow_ne_zero 2 hr), ← residue_inj]
  simp only [residue_mul, sq]

theorem affineY_eq_iff {left right : Jacobian} (hzl : left.z ≠ 0) (hzr : right.z ≠ 0) :
    left.affineY = right.affineY ↔
      left.y * right.z * (right.z * right.z) = right.y * left.z * (left.z * left.z) := by
  have hl : residue left.z ≠ 0 := residue_eq_zero_iff.not.mpr hzl
  have hr : residue right.z ≠ 0 := residue_eq_zero_iff.not.mpr hzr
  rw [affineY, affineY, div_eq_div_iff (pow_ne_zero 3 hl) (pow_ne_zero 3 hr), ← residue_inj]
  simp only [residue_mul]
  ring_nf

-- Two finite points with different x coordinates.
theorem represents_add_of_ne {left right : Jacobian} (hzl : left.z ≠ 0) (hzr : right.z ≠ 0)
    (hne : left.x * (right.z * right.z) ≠ right.x * (left.z * left.z))
    (hfirst : secp256k1.Nonsingular left.affineX left.affineY)
    (hsecond : secp256k1.Nonsingular right.affineX right.affineY) :
    Represents (left.add right) (.some _ _ hfirst + .some _ _ hsecond) := by
  have hl : residue left.z ≠ 0 := residue_eq_zero_iff.not.mpr hzl
  have hr : residue right.z ≠ 0 := residue_eq_zero_iff.not.mpr hzr
  let run := residue right.x * residue left.z ^ 2 - residue left.x * residue right.z ^ 2
  let rise := residue right.y * residue left.z ^ 3 - residue left.y * residue right.z ^ 3
  have hx : left.affineX ≠ right.affineX := (affineX_eq_iff hzl hzr).not.mpr hne
  have hrun : run ≠ 0 := by
    intro hzero
    apply hne
    rw [← residue_inj]
    simp only [residue_mul]
    linear_combination -hzero
  have hslope : secp256k1.slope left.affineX right.affineX left.affineY right.affineY =
      rise / (run * residue left.z * residue right.z) := by
    have hscale := mul_ne_zero (mul_ne_zero hrun hl) hr
    rw [slope_of_X_ne hx, div_eq_div_iff (sub_ne_zero.mpr hx) hscale]
    simp only [affineX, affineY, run, rise]
    field_simp
    ring
  have hz : residue (left.add right).z = residue left.z * residue right.z * run := by
    simp only [Jacobian.add, if_neg hzl, if_neg hzr, if_neg hne, residue_mul, residue_sub, run]
    ring
  have hX : residue (left.add right).x =
      rise ^ 2 - run ^ 3 - 2 * (residue left.x * residue right.z ^ 2 * run ^ 2) := by
    simp only [Jacobian.add, if_neg hzl, if_neg hzr, if_neg hne, residue_mul, residue_sub,
      residue_numeral, run, rise]
    ring
  have hY : residue (left.add right).y =
      rise * (residue left.x * residue right.z ^ 2 * run ^ 2 - residue (left.add right).x) -
        residue left.y * residue right.z ^ 3 * run ^ 3 := by
    simp only [Jacobian.add, if_neg hzl, if_neg hzr, if_neg hne, residue_mul, residue_sub,
      residue_numeral, run, rise]
    ring
  apply represents_sum_of_line hfirst hsecond (fun heq => hx heq.1) hslope
  · rw [ne_eq, ← residue_eq_zero_iff, hz]
    exact mul_ne_zero (mul_ne_zero hl hr) hrun
  · rw [affineX, affineX, affineX, hz, hX]
    exact chordX hl hr hrun rfl
  · rw [affineX, affineY, affineX, affineY, hz, hY]
    exact chordY hl hr hrun

-- Adding triples is adding the points that they stand for.
theorem Represents.add {left right : Jacobian} {first second : GroupPoint}
    (hleft : Represents left first) (hright : Represents right second) :
    Represents (left.add right) (first + second) := by
  cases hleft with
  | infinity hzl =>
      rw [zero_add, Jacobian.add, if_pos hzl]
      exact hright
  | finite hzl hfirst =>
      cases hright with
      | infinity hzr =>
          rw [add_zero, Jacobian.add, if_neg hzl, if_pos hzr]
          exact .finite hzl hfirst
      | finite hzr hsecond =>
          by_cases hX : left.x * (right.z * right.z) = right.x * (left.z * left.z)
          · have hx := (affineX_eq_iff hzl hzr).mpr hX
            simp only [Jacobian.add, if_neg hzl, if_neg hzr, if_pos hX]
            split
            · rename_i hY
              have hsame : (.some _ _ hsecond : GroupPoint) = .some _ _ hfirst := by
                rw [Point.some.injEq]
                exact ⟨hx.symm, ((affineY_eq_iff hzl hzr).mpr hY).symm⟩
              rw [hsame]
              exact (Represents.finite hzl hfirst).double
            · rename_i hY
              have hopposite := (Y_eq_of_X_eq hfirst.1 hsecond.1 hx).resolve_left
                ((affineY_eq_iff hzl hzr).not.mpr hY)
              rw [Point.add_of_Y_eq hx hopposite]
              exact .infinity rfl
          · exact represents_add_of_ne hzl hzr hX hfirst hsecond

theorem Represents.ladder {triple : Jacobian} {point : GroupPoint}
    (hrep : Represents triple point) (digits count : Nat) (hfits : count < 2 ^ digits) :
    Represents (ladder Jacobian.infinity Jacobian.double (Jacobian.add · triple) digits count)
      (count • point) := by
  apply ladder_relates (fun count value => Represents value (count • point))
  · rw [zero_nsmul]
    exact .infinity rfl
  · intro count value hvalue
    rw [two_mul, add_nsmul]
    exact hvalue.double
  · intro count value hvalue
    rw [succ_nsmul]
    exact hvalue.add hrep
  · rw [Nat.shiftRight_eq_div_pow, Nat.div_eq_of_lt hfits]

theorem Represents.multiple {triple : Jacobian} {point : GroupPoint}
    (hrep : Represents triple point) (scalar : Scalar) :
    Represents (triple.multiple scalar) (scalar.val • point) :=
  hrep.ladder width scalar.val (scalar.isLt.trans (by decide))

theorem Represents.eq_zero_of_z {triple : Jacobian} {point : GroupPoint}
    (hrep : Represents triple point) (hz : triple.z = 0) : point = 0 := by
  cases hrep with
  | infinity => rfl
  | finite hne => exact absurd hz hne

theorem toAffine?_eq_some_iff {triple : Jacobian} {point : GroupPoint}
    (hrep : Represents triple point) (x y : Coordinate) :
    triple.toAffine? = some (x, y) ↔ ∃ hpoint, point = .some (residue x) (residue y) hpoint := by
  cases hrep with
  | infinity hz =>
      simp only [toAffine?, if_pos hz, reduceCtorEq, false_iff, not_exists]
      exact fun _ => id
  | finite hz hpoint =>
      have hscale := residue_inverse triple.z (by decide) (by decide)
      have hx : residue (triple.x * inverse triple.z * inverse triple.z) = triple.affineX := by
        rw [residue_mul, residue_mul, hscale, affineX, div_eq_mul_inv, ← inv_pow]
        ring
      have hy : residue (triple.y * inverse triple.z * inverse triple.z * inverse triple.z) =
          triple.affineY := by
        rw [residue_mul, residue_mul, residue_mul, hscale, affineY, div_eq_mul_inv, ← inv_pow]
        ring
      simp only [toAffine?, if_neg hz, Option.some.injEq, Prod.mk.injEq, Point.some.injEq,
        ← hx, ← hy, residue_inj, exists_prop]
      constructor
      · intro heq
        refine ⟨?_, heq⟩
        rw [← heq.1, ← heq.2, hx, hy]
        exact hpoint
      · exact And.right

end Jacobian

end SigOps.Curve
