import SigOps.Proofs.Ecdsa.Recovery
import SigOps.Signature.Blob

namespace SigOps

open Curve

theorem Curve.groupOrder_mod_two : groupOrder % 2 = 1 := by decide

namespace PublicKey

-- The other point with the same x coordinate.
def opposite (key : PublicKey) : PublicKey where
  x := key.x
  y := -key.y
  onCurve := by
    have honCurve := key.onCurve
    rw [OnCurve, ← residue_inj, residue_mul] at honCurve
    rw [OnCurve, ← residue_inj, residue_mul, residue_neg, neg_mul_neg, honCurve]

theorem point_opposite (key : PublicKey) : key.opposite.point = -key.point := by
  simp only [point, opposite, WeierstrassCurve.Affine.Point.neg_some, negY_eq, residue_neg]

end PublicKey

namespace Pair

-- The same R with the opposite S.
def complement (pair : Pair) : Pair := { pair with s := -pair.s }

theorem val_complement_s {pair : Pair} (hs : pair.s ≠ 0) :
    pair.complement.s.val = groupOrder - pair.s.val := by
  rw [complement, Fin.val_neg, if_neg hs]

theorem complement_complement (pair : Pair) : pair.complement.complement = pair := by
  have hs : - -pair.s = pair.s := by rw [← residue_inj, residue_neg, residue_neg, neg_neg]
  simp only [complement, hs]

theorem isLowS_iff (pair : Pair) : pair.isLowS = true ↔ 2 * pair.s.val < groupOrder := by
  have hodd := groupOrder_mod_two
  rw [isLowS, decide_eq_true_eq, readS_eq, halfOrder]
  omega

-- The order is odd, so half of it falls between an S and its opposite.
theorem isLowS_complement {pair : Pair} (hs : pair.s ≠ 0) :
    pair.complement.isLowS = !pair.isLowS := by
  have hodd := groupOrder_mod_two
  have hlt := pair.s.isLt
  rw [Bool.eq_not, ne_eq, Bool.eq_iff_iff, isLowS_iff, isLowS_iff, val_complement_s hs]
  omega

theorem normalize_complement {pair : Pair} (hs : pair.s ≠ 0) :
    pair.complement.normalize = pair.normalize := by
  have hhigh : pair.complement.isHighS = !pair.isHighS := by
    rw [isHighS_eq, isHighS_eq, isLowS_complement hs]
  cases hpair : pair.isHighS with
  | true =>
      rw [hpair] at hhigh
      simp only [normalize, hhigh, hpair, Bool.not_true, Bool.false_eq_true, if_false, if_true]
      rfl
  | false =>
      rw [hpair] at hhigh
      simp only [normalize, hhigh, hpair, Bool.not_false, Bool.false_eq_true, if_false, if_true]
      exact complement_complement pair

end Pair

-- Exactly one of the two pairs passes the check, the one with the smaller S.
theorem Signature.checkLowS_complement {pair : Pair} (hs : pair.s ≠ 0) :
    2 * pair.s.val < groupOrder ∧ checkLowS pair = .ok () ∧
        checkLowS pair.complement = .error .highS ∨
      groupOrder < 2 * pair.s.val ∧ checkLowS pair = .error .highS ∧
        checkLowS pair.complement = .ok () := by
  have hodd := groupOrder_mod_two
  have hcomplement := Pair.isLowS_complement hs
  cases hlow : pair.isLowS with
  | true =>
      have hsmall := pair.isLowS_iff.mp hlow
      rw [hlow, Bool.not_true] at hcomplement
      exact .inl ⟨hsmall, by simp [checkLowS, hlow], by simp [checkLowS, hcomplement]⟩
  | false =>
      have hlarge := pair.isLowS_iff.not.mp (Bool.eq_false_iff.mp hlow)
      rw [hlow, Bool.not_false] at hcomplement
      exact .inr ⟨by omega, by simp [checkLowS, hlow], by simp [checkLowS, hcomplement]⟩

namespace Ecdsa

variable {digest : Digest} {pair : Pair} {key : PublicKey}

-- The opposite of S goes with the opposite of the nonce, which has the same x coordinate.
theorem isNonce_complement {nonce : PublicKey} (hnonce : IsNonce digest pair key nonce) :
    IsNonce digest pair.complement key nonce.opposite := by
  rw [IsNonce] at hnonce
  rw [IsNonce, PublicKey.point_opposite, ← hnonce, Pair.complement, residue_neg, inv_neg, mul_neg,
    mul_neg, neg_smul, neg_smul, neg_add]

theorem IsSignature.complement (hsignature : IsSignature digest pair key) :
    IsSignature digest pair.complement key := by
  obtain ⟨hr, hs, nonce, hx, hnonce⟩ := hsignature
  refine ⟨hr, ?_, nonce.opposite, hx, isNonce_complement hnonce⟩
  rwa [← residue_eq_zero_iff.ne, Pair.complement, residue_neg, neg_ne_zero, residue_eq_zero_iff.ne]

theorem isSignature_complement_iff :
    IsSignature digest pair.complement key ↔ IsSignature digest pair key := by
  refine ⟨fun hsignature => ?_, IsSignature.complement⟩
  rw [← pair.complement_complement]
  exact hsignature.complement

-- Verification accepts what the equation says of the pair as it stands, although it looks at the
-- normalized one.
theorem verify_iff_isSignature : verify key digest pair = true ↔ IsSignature digest pair key := by
  rw [verify_iff]
  by_cases hhigh : pair.isHighS = true
  · rw [Pair.normalize, if_pos hhigh]
    exact isSignature_complement_iff
  · rw [Pair.normalize, if_neg hhigh]

theorem verify_complement (key : PublicKey) (digest : Digest) (pair : Pair) :
    verify key digest pair.complement = verify key digest pair := by
  rw [Bool.eq_iff_iff, verify_iff_isSignature, verify_iff_isSignature, isSignature_complement_iff]

-- The parity of the nonce decides the order of the keys, so recovery has to start from the same one
-- of the two pairs.
theorem possibleKeys_complement (digest : Digest) (hs : pair.s ≠ 0) :
    possibleKeys digest pair.complement = possibleKeys digest pair := by
  have hrecover : recover? digest pair.complement = recover? digest pair := by
    funext choice
    rw [recover?_eq, recover?_eq, Pair.normalize_complement hs]
  simp only [possibleKeys, hrecover]

-- Of the two pairs with opposite S exactly one passes the check, the one with the smaller S.
-- Neither verification nor recovery tells them apart.
theorem lowS_chooses_one {r s : Nat} (hr : r < groupOrder) (hpos : 0 < s) (hs : s < groupOrder) :
    ∃ pair other : Pair, Pair.ofIntegers r s = .ok pair ∧
      Pair.ofIntegers r (groupOrder - s) = .ok other ∧
      (2 * s < groupOrder ∧ Signature.checkLowS pair = .ok () ∧
          Signature.checkLowS other = .error .highS ∨
        groupOrder < 2 * s ∧ Signature.checkLowS pair = .error .highS ∧
          Signature.checkLowS other = .ok ()) ∧
      ∀ digest, (∀ key, verify key digest pair = verify key digest other) ∧
        possibleKeys digest pair = possibleKeys digest other := by
  let pair : Pair := ⟨⟨r, hr⟩, ⟨s, hs⟩⟩
  have hne : pair.s ≠ 0 := fun hzero => hpos.ne' (congrArg Fin.val hzero)
  exact ⟨pair, pair.complement, Pair.ofIntegers_eq_ok_iff.mpr ⟨rfl, rfl⟩,
    Pair.ofIntegers_eq_ok_iff.mpr ⟨rfl, Pair.val_complement_s hne⟩,
    Signature.checkLowS_complement hne, fun digest =>
      ⟨fun key => (verify_complement key digest pair).symm,
        (possibleKeys_complement digest hne).symm⟩⟩

-- The two values of S on either side of half the order.
theorem lowS_chooses_one_midpoint :
    Pair.halfOrder + 1 < groupOrder ∧
      ∃ pair other : Pair, Pair.ofIntegers 1 (Pair.halfOrder + 1) = .ok pair ∧
        Pair.ofIntegers 1 Pair.halfOrder = .ok other ∧
        Signature.checkLowS pair = .error .highS ∧ Signature.checkLowS other = .ok () ∧
        ∀ digest, (∀ key, verify key digest pair = verify key digest other) ∧
          possibleKeys digest pair = possibleKeys digest other := by
  have hlt : Pair.halfOrder + 1 < groupOrder := by decide
  have hother : groupOrder - (Pair.halfOrder + 1) = Pair.halfOrder := by decide
  have hhigh : ¬2 * (Pair.halfOrder + 1) < groupOrder := by decide
  obtain ⟨pair, other, hpair, hcomplement, hchoice, hsame⟩ :=
    lowS_chooses_one (r := 1) (by decide) (Nat.succ_pos _) hlt
  obtain ⟨-, hpairHigh, hotherLow⟩ := hchoice.resolve_left fun hlow => hhigh hlow.1
  exact ⟨hlt, pair, other, hpair, hother ▸ hcomplement, hpairHigh, hotherLow, hsame⟩

end Ecdsa

end SigOps
