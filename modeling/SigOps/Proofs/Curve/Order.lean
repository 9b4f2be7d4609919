import Mathlib.Algebra.Module.ZMod
import Mathlib.GroupTheory.Perm.Cycle.Type
import SigOps.Proofs.Curve.Group

namespace SigOps.Curve

open WeierstrassCurve.Affine

def generatorPoint : GroupPoint :=
  .some (residue generatorX) (residue generatorY) ((onCurve_iff _ _).mp (by decide))

theorem represents_generator : Jacobian.generator.Represents generatorPoint :=
  Jacobian.represents_ofAffine _

theorem groupOrder_nsmul_generator : groupOrder • generatorPoint = 0 := by
  have hrep := represents_generator.ladder width groupOrder (by decide)
  have hz : (ladder Jacobian.infinity Jacobian.double (Jacobian.add · Jacobian.generator) width
      groupOrder).z = 0 := by decide +kernel
  exact hrep.eq_zero_of_z hz

theorem addOrderOf_generator : addOrderOf generatorPoint = groupOrder :=
  addOrderOf_eq_prime groupOrder_nsmul_generator (Point.some_ne_zero _)

-- A coordinate whose parity is known is one of two opposite ones.
theorem val_neg_mod_two_ne {y : ZMod fieldPrime} (hy : y ≠ 0) :
    (-y).val % 2 ≠ y.val % 2 := by
  have hodd : fieldPrime % 2 = 1 := by decide
  have hlt := y.val_lt
  rw [ZMod.neg_val, if_neg hy]
  omega

def compress : GroupPoint → Option (ZMod fieldPrime × Bool)
  | .zero => none
  | .some x y _ => some (x, y.val % 2 = 1)

theorem compress_injective : Function.Injective compress := by
  intro first second heq
  cases first with
  | zero =>
      cases second with
      | zero => rfl
      | some x y hpoint => simp [compress] at heq
  | some x₁ y₁ h₁ =>
      cases second with
      | zero => simp [compress] at heq
      | some x₂ y₂ h₂ =>
          simp only [compress, Option.some.injEq, Prod.mk.injEq, decide_eq_decide] at heq
          obtain ⟨rfl, hparity⟩ := heq
          rw [Point.some.injEq]
          refine ⟨rfl, (Y_eq_of_X_eq h₁.1 h₂.1 rfl).elim id ?_⟩
          intro hopposite
          rw [negY_eq] at hopposite
          by_cases hzero : y₂ = 0
          · rw [hopposite, hzero, neg_zero]
          · have hne := val_neg_mod_two_ne hzero
            rw [← hopposite] at hne
            omega

instance : Finite GroupPoint := Finite.of_injective compress compress_injective

theorem card_le : Nat.card GroupPoint ≤ 2 * fieldPrime + 1 := by
  have hle := Nat.card_le_card_of_injective compress compress_injective
  have hbool : Nat.card Bool = 2 := Nat.card_eq_fintype_card
  rw [Finite.card_option, Nat.card_prod, Nat.card_zmod, hbool, Nat.mul_comm] at hle
  exact hle

-- There is no point with y = 0, since -7 is no cube: its power to a third of the order of the
-- multiplicative group is not 1.
theorem y_ne_zero {x y : ZMod fieldPrime} (hpoint : secp256k1.Nonsingular x y) : y ≠ 0 := by
  rintro rfl
  have hcube : x ^ 3 = residue (-7 : Coordinate) := by
    have heq := (nonsingular_iff_cubic x 0).mp hpoint
    rw [residue_neg, residue_numeral]
    linear_combination -heq
  have hpower : power (-7 : Coordinate) ((fieldPrime - 1) / 3) ≠ 1 := by decide +kernel
  apply hpower
  rw [← residue_inj, residue_one, residue_power _ _ (by decide), ← hcube, ← pow_mul,
    show 3 * ((fieldPrime - 1) / 3) = fieldPrime - 1 by decide]
  apply ZMod.pow_card_sub_one_eq_one
  rintro rfl
  have hseven : (-7 : Coordinate) ≠ 0 := by decide
  rw [zero_pow (by decide), eq_comm, residue_eq_zero_iff] at hcube
  exact hseven hcube

theorem double_ne_zero {point : GroupPoint} (hpoint : point ≠ 0) : point + point ≠ 0 := by
  cases point with
  | zero => exact absurd rfl hpoint
  | some x y hxy =>
      intro hzero
      rw [Point.add_self_of_Y_ne] at hzero
      · exact Point.some_ne_zero _ hzero
      · rw [negY_eq]
        exact fun heq => y_ne_zero hxy (eq_zero_of_eq_neg heq)

theorem not_two_dvd_card : ¬2 ∣ Nat.card GroupPoint := by
  intro hdvd
  obtain ⟨point, horder⟩ := exists_prime_addOrderOf_dvd_card' 2 hdvd
  have hne : point ≠ 0 := by
    rintro rfl
    simp at horder
  apply double_ne_zero hne
  rw [← two_nsmul, ← horder]
  exact addOrderOf_nsmul_eq_zero point

-- The points are too few for three times the order of the generator, and an odd number of them, so
-- they are its multiples.
theorem card_groupPoint : Nat.card GroupPoint = groupOrder := by
  obtain ⟨count, hcount⟩ : groupOrder ∣ Nat.card GroupPoint :=
    addOrderOf_generator ▸ addOrderOf_dvd_natCard generatorPoint
  have hle := card_le
  have hodd := not_two_dvd_card
  have hpos : 0 < Nat.card GroupPoint := Nat.card_pos
  have hsmall : 2 * fieldPrime + 1 < 3 * groupOrder := by decide
  have hone : count = 1 := by
    match count with
    | 0 => omega
    | 1 => rfl
    | 2 => exact absurd ⟨groupOrder, by omega⟩ hodd
    | count + 3 =>
        have hthree := Nat.mul_le_mul_left groupOrder (show 3 ≤ count + 3 by omega)
        omega
  rw [hcount, hone, Nat.mul_one]

theorem groupOrder_nsmul (point : GroupPoint) : groupOrder • point = 0 :=
  card_groupPoint ▸ card_nsmul_eq_zero'

noncomputable instance : Module (ZMod groupOrder) GroupPoint :=
  AddCommGroup.zmodModule groupOrder_nsmul

theorem residue_smul (scalar : Scalar) (point : GroupPoint) :
    residue scalar • point = scalar.val • point := by
  rw [residue, Nat.cast_smul_eq_nsmul]

end SigOps.Curve
