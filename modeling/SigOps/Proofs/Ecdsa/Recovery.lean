import SigOps.Proofs.Basic
import SigOps.Proofs.Curve.PublicKey
import SigOps.Proofs.Signature.Pair

namespace SigOps.Ecdsa

open Curve

theorem represents_combine {triple : Jacobian} {point : GroupPoint}
    (hrep : triple.Represents point) (first second : Scalar) :
    (combine first second triple).Represents
      (residue first • generatorPoint + residue second • point) := by
  rw [residue_smul, residue_smul]
  exact (represents_generator.multiple first).add (hrep.multiple second)

-- The combination that a nonce is of the generator and the key, solved for the key.
theorem nonce_iff {r s hash : ZMod groupOrder} (hr : r ≠ 0) (hs : s ≠ 0)
    (key nonce : GroupPoint) :
    (hash * s⁻¹) • generatorPoint + (r * s⁻¹) • key = nonce ↔
      (-(hash * r⁻¹)) • generatorPoint + (s * r⁻¹) • nonce = key := by
  have hone : s * r⁻¹ * (r * s⁻¹) = 1 := by field_simp
  have hinverse : r * s⁻¹ * (s * r⁻¹) = 1 := by field_simp
  have hkey : s * r⁻¹ * (hash * s⁻¹) = hash * r⁻¹ := by field_simp
  have hnonce : r * s⁻¹ * (hash * r⁻¹) = hash * s⁻¹ := by field_simp
  constructor
  · rintro rfl
    rw [smul_add, smul_smul, smul_smul, hone, hkey, one_smul, neg_smul, neg_add_cancel_left]
  · rintro rfl
    rw [smul_add, smul_smul, smul_smul, hinverse, mul_neg, hnonce, one_smul, neg_smul,
      add_neg_cancel_left]

theorem residue_inverse_scalar (value : Scalar) : residue (inverse value) = (residue value)⁻¹ :=
  residue_inverse value (by decide) (by decide)

-- The point that the signer must have multiplied out, if the pair is a signature under the key.
def IsNonce (digest : Digest) (pair : Pair) (key nonce : PublicKey) : Prop :=
  (residue (digestScalar digest) * (residue pair.s)⁻¹) • generatorPoint +
    (residue pair.r * (residue pair.s)⁻¹) • key.point = nonce.point

-- The equation of a signature, for the pair as it stands.
def IsSignature (digest : Digest) (pair : Pair) (key : PublicKey) : Prop :=
  pair.r ≠ 0 ∧ pair.s ≠ 0 ∧ ∃ nonce : PublicKey, nonce.x.val % groupOrder = pair.r.val ∧
    IsNonce digest pair key nonce

-- What verification computes, in the group.
theorem represents_verified (key : PublicKey) (digest : Digest) (pair : Pair) :
    (combine (digestScalar digest * inverse pair.s) (pair.r * inverse pair.s)
      (keyPoint key)).Represents
        ((residue (digestScalar digest) * (residue pair.s)⁻¹) • generatorPoint +
          (residue pair.r * (residue pair.s)⁻¹) • key.point) := by
  have hrep := represents_combine key.represents_ofKey
    (digestScalar digest * inverse pair.s) (pair.r * inverse pair.s)
  rwa [residue_mul, residue_mul, residue_inverse_scalar] at hrep

theorem verifyLow_iff (key : PublicKey) (digest : Digest) (pair : Pair) :
    verifyLow key digest pair = true ↔ pair.isHighS = false ∧ IsSignature digest pair key := by
  have hnonce {x y : Coordinate} :=
    PublicKey.toAffine?_eq_some_iff_exists (represents_verified key digest pair) (x := x) (y := y)
  rw [verifyLow]
  cases pair.isHighS with
  | true => simp
  | false =>
      simp only [Bool.false_eq_true, if_false, true_and, IsSignature]
      split
      · rename_i hzero
        simp only [Bool.false_eq_true, false_iff]
        tauto
      · rename_i hnonzero
        rw [not_or] at hnonzero
        split
        · rename_i hinfinite
          simp only [Bool.false_eq_true, false_iff, not_and, not_exists]
          intro _ _ nonce _ hpoint
          have hfinite := hnonce.mpr ⟨nonce, rfl, rfl, hpoint⟩
          rw [hinfinite] at hfinite
          cases hfinite
        · rename_i x y hfinite
          obtain ⟨nonce, rfl, rfl, hpoint⟩ := hnonce.mp hfinite
          rw [decide_eq_true_eq]
          constructor
          · intro hx
            exact ⟨hnonzero.1, hnonzero.2, nonce, hx, hpoint⟩
          · rintro ⟨-, -, other, hx, hother⟩
            obtain rfl := PublicKey.point_injective (hpoint.symm.trans hother)
            exact hx

-- High S would be refused, but there is none in a normalized pair.
theorem verify_iff (key : PublicKey) (digest : Digest) (pair : Pair) :
    verify key digest pair = true ↔ IsSignature digest pair.normalize key := by
  rw [verify, verifyLow_iff]
  exact and_iff_right pair.isHighS_normalize

theorem nonceX?_eq_some_iff {r : Scalar} {reduced : Bool} {x : Coordinate} :
    nonceX? r reduced = some x ↔ x.val = if reduced then r.val + groupOrder else r.val := by
  simp only [nonceX?]
  generalize (if reduced = true then r.val + groupOrder else r.val) = value
  split
  · rw [Option.some.injEq, eq_comm, Fin.ext_iff]
  · simp only [reduceCtorEq, false_iff]
    rintro rfl
    exact absurd x.isLt ‹_›

-- The prime is less than twice the order, so a coordinate is reduced by at most one order.
theorem val_mod_eq_iff (x : Coordinate) (r : Scalar) :
    x.val % groupOrder = r.val ↔ ∃ reduced, nonceX? r reduced = some x := by
  have hsmall : fieldPrime < 2 * groupOrder := by decide
  have hx := x.isLt
  have hr := r.isLt
  simp only [nonceX?_eq_some_iff, Bool.exists_bool, Bool.false_eq_true, if_false, if_true]
  rcases Nat.lt_or_ge x.val groupOrder with hlt | hge
  · rw [Nat.mod_eq_of_lt hlt]
    omega
  · rw [Nat.mod_eq_sub_mod hge, Nat.mod_eq_of_lt (by omega)]
    omega

-- What recovery solves for, in the group.
theorem represents_recovered (nonce : PublicKey) (digest : Digest) (pair : Pair) :
    (combine (-(digestScalar digest * inverse pair.r)) (pair.s * inverse pair.r)
      (keyPoint nonce)).Represents
        ((-(residue (digestScalar digest) * (residue pair.r)⁻¹)) • generatorPoint +
          (residue pair.s * (residue pair.r)⁻¹) • nonce.point) := by
  have hrep := represents_combine nonce.represents_ofKey
    (-(digestScalar digest * inverse pair.r)) (pair.s * inverse pair.r)
  rwa [residue_neg, residue_mul, residue_mul, residue_inverse_scalar] at hrep

theorem recoverFrom?_eq_some_iff (digest : Digest) (pair : Pair) (choice : NonceChoice)
    (key : PublicKey) :
    recoverFrom? digest pair choice = some key ↔
      pair.r ≠ 0 ∧ pair.s ≠ 0 ∧ ∃ nonce : PublicKey,
        nonceX? pair.r choice.reduced = some nonce.x ∧ isOdd nonce.y = choice.odd ∧
          IsNonce digest pair key nonce := by
  rw [recoverFrom?]
  split
  · rename_i hzero
    simp only [reduceCtorEq, false_iff]
    tauto
  · rename_i hnonzero
    rw [not_or] at hnonzero
    have hr := residue_eq_zero_iff.not.mpr hnonzero.1
    have hs := residue_eq_zero_iff.not.mpr hnonzero.2
    have hrecovered (nonce : PublicKey) :=
      (PublicKey.ofCoordinates?_toAffine? (represents_recovered nonce digest pair)).trans
        (nonce_iff hr hs key.point nonce.point).symm
    simp only [Option.bind_eq_bind, Option.bind_eq_some_iff] at hrecovered ⊢
    constructor
    · rintro ⟨x, hx, nonce, hnonce, hkey⟩
      obtain ⟨rfl, hodd⟩ := PublicKey.ofX?_eq_some_iff.mp hnonce
      exact ⟨hnonzero.1, hnonzero.2, nonce, hx, hodd, (hrecovered nonce).mp hkey⟩
    · rintro ⟨-, -, nonce, hx, hodd, hnonce⟩
      exact ⟨nonce.x, hx, nonce, PublicKey.ofX?_eq_some_iff.mpr ⟨rfl, hodd⟩,
        (hrecovered nonce).mpr hnonce⟩

theorem recover?_eq (digest : Digest) (pair : Pair) (choice : NonceChoice) :
    recover? digest pair choice = recoverFrom? digest pair.normalize choice := by
  rw [recover?, Pair.ofCompact?_toCompact]
  rfl

theorem mem_nonceChoices (choice : NonceChoice) : choice ∈ nonceChoices := by
  obtain ⟨reduced, odd⟩ := choice
  cases reduced <;> cases odd <;> simp [nonceChoices]

theorem mem_possibleKeys_iff (key : PublicKey) (digest : Digest) (pair : Pair) :
    key ∈ possibleKeys digest pair ↔ verify key digest pair = true := by
  rw [verify_iff, possibleKeys, List.mem_eraseDups, List.mem_filterMap]
  simp only [recover?_eq, recoverFrom?_eq_some_iff]
  constructor
  · rintro ⟨choice, -, hr, hs, nonce, hx, -, hnonce⟩
    exact ⟨hr, hs, nonce, (val_mod_eq_iff _ _).mpr ⟨choice.reduced, hx⟩, hnonce⟩
  · rintro ⟨hr, hs, nonce, hmod, hnonce⟩
    obtain ⟨reduced, hx⟩ := (val_mod_eq_iff _ _).mp hmod
    exact ⟨⟨reduced, isOdd nonce.y⟩, mem_nonceChoices _, hr, hs, nonce, hx, rfl, hnonce⟩

-- A key is recovered from a pair exactly when the pair verifies under it. Verification computes the
-- nonce from the key, recovery guesses the nonce from r and solves for the key.
theorem possibleKeys_spec (digest : Digest) (pair : Pair) :
    (∀ key, key ∈ possibleKeys digest pair ↔ verify key digest pair = true) ∧
      (possibleKeys digest pair).Nodup ∧ (possibleKeys digest pair).length ≤ 4 := by
  refine ⟨fun key => mem_possibleKeys_iff key digest pair, nodup_eraseDups _, ?_⟩
  calc (possibleKeys digest pair).length
      ≤ (nonceChoices.filterMap (recover? digest pair)).length := length_eraseDups_le _
    _ ≤ nonceChoices.length := List.length_filterMap_le _ _
    _ = 4 := rfl

end SigOps.Ecdsa
