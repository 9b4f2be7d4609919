import SigOps.Proofs.ScriptNum

namespace SigOps.ScriptNum

theorem truthy_concat (first : Bytes) (last : UInt8) :
    truthy (first ++ [last]) = (first.any (· != 0) || (last != 0 && last != 0x80)) := by
  simp only [truthy, List.getLast?_concat, List.dropLast_concat]

theorem truthy_concat_eq_false_iff (first : Bytes) (last : UInt8) :
    truthy (first ++ [last]) = false ↔ (∀ byte ∈ first, byte = 0) ∧ (last = 0 ∨ last = 0x80) := by
  rw [truthy_concat]
  by_cases hzero : last = 0
  · simp [hzero]
  · simp [hzero]

-- Only the sign is left in a byte without its low bits.
theorem low_eq_zero_iff (byte : UInt8) : byte &&& 0x7f = 0 ↔ byte = 0 ∨ byte = 0x80 := by
  revert byte
  apply Bytes.forall_byte
  decide +kernel

theorem signed_eq_zero_iff (negative : Bool) (magnitude : Nat) :
    signed negative magnitude = 0 ↔ magnitude = 0 := by
  rw [← Int.natAbs_eq_zero, natAbs_signed]

theorem truthy_eq_false_iff (bytes : Bytes) : truthy bytes = false ↔ signMagnitude bytes = 0 := by
  rcases List.eq_nil_or_concat bytes with rfl | ⟨first, last, rfl⟩
  · simp [truthy, signMagnitude]
  · rw [List.concat_eq_append, truthy_concat_eq_false_iff, signMagnitude_concat, signed_eq_zero_iff,
      Bytes.toNatLE_eq_zero_iff, List.forall_mem_append, List.forall_mem_singleton, low_eq_zero_iff]

theorem truthy_iff (bytes : Bytes) : truthy bytes = true ↔ signMagnitude bytes ≠ 0 := by
  rw [Ne, ← truthy_eq_false_iff, Bool.not_eq_false]

theorem truthy_encode_iff (value : Int) : truthy (encode value) = true ↔ value ≠ 0 := by
  rw [truthy_iff, (spelled_encode value).signMagnitude_eq]

-- An element is true when the number that it spells is not zero. That number is the one that a
-- short element is read as, and the one that an element was written for.
theorem truthy_reads_number :
    (∀ bytes : Bytes, truthy bytes = true ↔ signMagnitude bytes ≠ 0) ∧
    (∀ bytes : Bytes, bytes.length ≤ maxSize →
      ∃ value, decode false bytes = .ok value ∧ (truthy bytes = true ↔ value ≠ 0)) ∧
    ∀ value : Int, truthy (encode value) = true ↔ value ≠ 0 := by
  refine ⟨truthy_iff, fun bytes hshort => ?_, truthy_encode_iff⟩
  have hdecode : decode false bytes = .ok (signMagnitude bytes) :=
    decode_eq_ok_iff.mpr ⟨hshort, by simp, rfl⟩
  exact ⟨_, hdecode, truthy_iff bytes⟩

-- A sign above zeros is a negative zero. The sign byte that 128 takes is zero itself.
theorem truthy_reads_number_signs :
    (∃ value, decode false [0, 0x80] = .ok value ∧ ¬value ≠ 0) ∧
      encode 128 = [0x80, 0] ∧ truthy [0x80, 0] = true ∧
      encode (-128) = [0x80, 0x80] ∧ truthy [0x80, 0x80] = true := by
  obtain ⟨-, hdecode, hencode⟩ := truthy_reads_number
  have hwritten : encode 128 = [0x80, 0] := by decide +kernel
  have hnegative : encode (-128) = [0x80, 0x80] := by decide +kernel
  obtain ⟨value, hvalue, htruthy⟩ := hdecode [0, 0x80] (by decide)
  refine ⟨⟨value, hvalue, fun hne => absurd (htruthy.mpr hne) (by decide)⟩, hwritten, ?_,
    hnegative, ?_⟩
  · exact hwritten ▸ (hencode 128).mpr (by decide)
  · exact hnegative ▸ (hencode (-128)).mpr (by decide)

end SigOps.ScriptNum
