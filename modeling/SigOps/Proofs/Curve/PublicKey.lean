import SigOps.Ecdsa
import SigOps.Proofs.Curve.Order

namespace SigOps

open Curve WeierstrassCurve.Affine

namespace PublicKey

theorem nonsingular (key : PublicKey) : secp256k1.Nonsingular (residue key.x) (residue key.y) :=
  (onCurve_iff _ _).mp key.onCurve

def point (key : PublicKey) : GroupPoint := .some _ _ key.nonsingular

theorem eq_of_coordinates {first second : PublicKey} (hx : first.x = second.x)
    (hy : first.y = second.y) : first = second := by
  cases first
  cases second
  subst hx hy
  rfl

theorem point_eq_some_iff (key : PublicKey) (x y : Coordinate) :
    (∃ hpoint, key.point = .some (residue x) (residue y) hpoint) ↔ key.x = x ∧ key.y = y := by
  simp only [point, Point.some.injEq, residue_inj, exists_prop]
  constructor
  · exact And.right
  · rintro ⟨rfl, rfl⟩
    exact ⟨key.nonsingular, rfl, rfl⟩

theorem point_injective : Function.Injective point := by
  intro first second heq
  obtain ⟨hx, hy⟩ := (point_eq_some_iff first second.x second.y).mp ⟨second.nonsingular, heq⟩
  exact eq_of_coordinates hx hy

theorem represents_ofKey (key : PublicKey) : (Ecdsa.keyPoint key).Represents key.point :=
  Jacobian.represents_ofAffine key.nonsingular

theorem ofCoordinates?_eq_some_iff {x y : Coordinate} {key : PublicKey} :
    ofCoordinates? x y = some key ↔ key.x = x ∧ key.y = y := by
  unfold ofCoordinates?
  split
  · rw [Option.some.injEq]
    constructor
    · rintro rfl
      exact ⟨rfl, rfl⟩
    · rintro ⟨rfl, rfl⟩
      rfl
  · rename_i hoff
    simp only [reduceCtorEq, false_iff]
    rintro ⟨rfl, rfl⟩
    exact hoff key.onCurve

-- The coordinates of a triple are those of the key that it stands for.
theorem ofCoordinates?_toAffine? {triple : Jacobian} {point : GroupPoint}
    (hrep : triple.Represents point) {key : PublicKey} :
    (triple.toAffine?.bind fun pair => ofCoordinates? pair.1 pair.2) = some key ↔
      point = key.point := by
  rw [Option.bind_eq_some_iff]
  constructor
  · rintro ⟨⟨x, y⟩, haffine, hkey⟩
    obtain ⟨rfl, rfl⟩ := ofCoordinates?_eq_some_iff.mp hkey
    obtain ⟨_, rfl⟩ := (Jacobian.toAffine?_eq_some_iff hrep _ _).mp haffine
    rfl
  · rintro rfl
    have haffine := (Jacobian.toAffine?_eq_some_iff hrep key.x key.y).mpr ⟨key.nonsingular, rfl⟩
    exact ⟨_, haffine, ofCoordinates?_eq_some_iff.mpr ⟨rfl, rfl⟩⟩

theorem toAffine?_eq_some_iff_exists {triple : Jacobian} {point : GroupPoint}
    (hrep : triple.Represents point) {x y : Coordinate} :
    triple.toAffine? = some (x, y) ↔
      ∃ key : PublicKey, key.x = x ∧ key.y = y ∧ point = key.point := by
  rw [Jacobian.toAffine?_eq_some_iff hrep x y]
  constructor
  · rintro ⟨hpoint, rfl⟩
    exact ⟨⟨x, y, (onCurve_iff x y).mpr hpoint⟩, rfl, rfl, rfl⟩
  · rintro ⟨key, rfl, rfl, rfl⟩
    exact ⟨key.nonsingular, rfl⟩

theorem isOdd_neg {coordinate : Coordinate} (hne : coordinate ≠ 0) :
    isOdd (-coordinate) = !isOdd coordinate := by
  have hodd : fieldPrime % 2 = 1 := by decide
  have hlt := coordinate.isLt
  have hpos : coordinate.val ≠ 0 := fun hzero => hne (Fin.ext hzero)
  have hneg : fieldPrime - coordinate.val < fieldPrime := by omega
  simp only [isOdd, Fin.neg_def, Nat.mod_eq_of_lt hneg]
  grind

theorem y_ne_zero (key : PublicKey) : key.y ≠ 0 :=
  residue_eq_zero_iff.not.mp (Curve.y_ne_zero key.nonsingular)

theorem squareRoot?_eq_some {square root : Coordinate} (hroot : squareRoot? square = some root) :
    root * root = square := by
  simp only [squareRoot?] at hroot
  split at hroot
  · rename_i hsquare
    obtain rfl := Option.some.inj hroot
    exact hsquare
  · simp at hroot

-- A square y² has the root y ^ ((p + 1) / 2), since y ^ (p - 1) is 1.
theorem exists_squareRoot? (y : Coordinate) : ∃ root, squareRoot? (y * y) = some root := by
  have hsquare : power (y * y) ((fieldPrime + 1) / 4) * power (y * y) ((fieldPrime + 1) / 4) =
      y * y := by
    rw [← residue_inj, residue_mul, residue_power _ _ (by decide), residue_mul, ← pow_two,
      ← pow_two, ← pow_mul, ← pow_mul,
      show 2 * ((fieldPrime + 1) / 4 * 2) = fieldPrime - 1 + 2 by decide, pow_add]
    by_cases hzero : residue y = 0
    · rw [hzero, zero_pow two_ne_zero, mul_zero]
    · rw [ZMod.pow_card_sub_one_eq_one hzero, one_mul]
  refine ⟨power (y * y) ((fieldPrime + 1) / 4), ?_⟩
  simp only [squareRoot?, if_pos hsquare]

theorem eq_or_eq_neg_of_mul_self_eq {first second : Coordinate}
    (heq : first * first = second * second) : first = second ∨ first = -second := by
  rw [← residue_inj, residue_mul, residue_mul, mul_self_eq_mul_self_iff] at heq
  rwa [← residue_inj, ← residue_inj, residue_neg]

-- The root with the parity of one of the two.
theorem chosen_root_eq {root y : Coordinate} (hy : y ≠ 0) (heq : root = y ∨ root = -y) :
    (if isOdd root = isOdd y then root else -root) = y := by
  rcases heq with rfl | rfl
  · rw [if_pos rfl]
  · rw [if_neg (by simp [isOdd_neg hy]), ← residue_inj, residue_neg, residue_neg, neg_neg]

theorem ofX?_eq_some_iff {x : Coordinate} {odd : Bool} {key : PublicKey} :
    ofX? x odd = some key ↔ key.x = x ∧ isOdd key.y = odd := by
  simp only [ofX?, Option.bind_eq_bind, Option.bind_eq_some_iff, ofCoordinates?_eq_some_iff]
  constructor
  · rintro ⟨root, hroot, rfl, hy⟩
    refine ⟨rfl, ?_⟩
    have hne := key.y_ne_zero
    split at hy
    · rename_i hparity
      rw [hy, hparity]
    · rename_i hparity
      have hzero : root ≠ 0 := by
        rintro rfl
        exact hne hy
      rw [hy, isOdd_neg hzero]
      cases odd <;> simpa using hparity
  · rintro ⟨rfl, rfl⟩
    obtain ⟨root, hroot⟩ := exists_squareRoot? key.y
    have hsquare := squareRoot?_eq_some hroot
    rw [key.onCurve] at hroot
    exact ⟨root, hroot, rfl,
      (chosen_root_eq key.y_ne_zero (eq_or_eq_neg_of_mul_self_eq hsquare)).symm⟩

end PublicKey

end SigOps
