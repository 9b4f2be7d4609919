import Mathlib.FieldTheory.Finite.Basic
import SigOps.Curve.Secp256k1

namespace SigOps.Curve

variable {modulus : Nat}

-- Coordinates and scalars as elements of the ring of residues. The arithmetic that runs on bounded
-- numbers is the arithmetic of that ring.
def residue (value : Fin modulus) : ZMod modulus := value.val

theorem residue_injective : Function.Injective (@residue modulus) := by
  intro left right heq
  have hmod := (ZMod.natCast_eq_natCast_iff' left.val right.val modulus).mp heq
  rw [Nat.mod_eq_of_lt left.isLt, Nat.mod_eq_of_lt right.isLt] at hmod
  exact Fin.ext hmod

@[simp] theorem residue_inj {left right : Fin modulus} :
    residue left = residue right ↔ left = right :=
  residue_injective.eq_iff

@[simp] theorem residue_add (left right : Fin modulus) :
    residue (left + right) = residue left + residue right := by
  simp only [residue, Fin.val_add, ZMod.natCast_mod, Nat.cast_add]

@[simp] theorem residue_mul (left right : Fin modulus) :
    residue (left * right) = residue left * residue right := by
  simp only [residue, Fin.val_mul, ZMod.natCast_mod, Nat.cast_mul]

@[simp] theorem residue_neg (value : Fin modulus) : residue (-value) = -residue value := by
  simp only [residue, Fin.neg_def, ZMod.natCast_mod, Nat.cast_sub value.isLt.le,
    ZMod.natCast_self, zero_sub]

@[simp] theorem residue_sub (left right : Fin modulus) :
    residue (left - right) = residue left - residue right := by
  simp only [residue, Fin.val_sub, ZMod.natCast_mod, Nat.cast_add, Nat.cast_sub right.isLt.le,
    ZMod.natCast_self, zero_sub]
  ring

@[simp] theorem residue_zero [NeZero modulus] : residue (0 : Fin modulus) = 0 := by
  simp only [residue, Fin.val_zero, Nat.cast_zero]

@[simp] theorem residue_ofNat [NeZero modulus] (value : Nat) :
    residue (Fin.ofNat modulus value) = value := by
  simp only [residue, Fin.val_ofNat, ZMod.natCast_mod]

@[simp] theorem residue_one [NeZero modulus] : residue (1 : Fin modulus) = 1 :=
  (residue_ofNat 1).trans Nat.cast_one

@[simp] theorem residue_numeral [NeZero modulus] (value : Nat) [value.AtLeastTwo] :
    residue (ofNat(value) : Fin modulus) = ofNat(value) :=
  residue_ofNat value

theorem residue_eq_zero_iff [NeZero modulus] {value : Fin modulus} :
    residue value = 0 ↔ value = 0 := by
  rw [← residue_zero, residue_inj]

theorem residue_power (base : Fin modulus) (exponent : Nat) (hfits : exponent < 2 ^ width) :
    residue (power base exponent) = residue base ^ exponent := by
  refine ladder_relates (fun count value => residue value = residue base ^ count) ?_ ?_ ?_
    width exponent ?_
  · simp only [residue, ZMod.natCast_mod, Nat.cast_one, pow_zero]
  · intro count value hvalue
    rw [residue_mul, hvalue, two_mul, pow_add]
  · intro count value hvalue
    rw [residue_mul, hvalue, pow_succ]
  · rw [Nat.shiftRight_eq_div_pow, Nat.div_eq_of_lt hfits]

theorem residue_inverse [Fact modulus.Prime] (value : Fin modulus) (htwo : 2 < modulus)
    (hfits : modulus < 2 ^ width) : residue (inverse value) = (residue value)⁻¹ := by
  rw [inverse, residue_power _ _ (by omega)]
  by_cases hvalue : residue value = 0
  · rw [hvalue, inv_zero, zero_pow (by omega)]
  · have hone := ZMod.pow_card_sub_one_eq_one hvalue
    rw [show modulus - 1 = modulus - 2 + 1 by omega, pow_succ] at hone
    exact eq_inv_of_mul_eq_one_left hone

end SigOps.Curve
