import SigOps.Proofs.Bytes
import SigOps.ScriptNum

namespace SigOps.ScriptNum

-- The number spelled by an element of any length.
def signMagnitude (bytes : Bytes) : Int :=
  match bytes.getLast? with
  | none => 0
  | some last =>
      let magnitude := Bytes.toNatLE (bytes.dropLast ++ [last &&& 0x7f])
      if last &&& 0x80 = 0 then magnitude else -magnitude

-- A number by its sign and magnitude.
def signed (negative : Bool) (magnitude : Nat) : Int :=
  if negative then -magnitude else magnitude

-- The sign as the top bit of a byte.
def signBit (negative : Bool) : UInt8 := if negative then 0x80 else 0

-- The minimal spellings. The sign is put on the last byte of the magnitude where that leaves its
-- top bit free, and on a byte of its own elsewhere.
inductive Spelled : Int → Bytes → Prop where
  | zero : Spelled 0 []
  | shared (negative : Bool) (first : Bytes) {last : UInt8} (hne : last ≠ 0)
      (hclear : last &&& 0x80 = 0) :
      Spelled (signed negative (Bytes.toNatLE (first ++ [last])))
        (first ++ [last ||| signBit negative])
  | extra (negative : Bool) (first : Bytes) {last : UInt8} (hset : last &&& 0x80 ≠ 0) :
      Spelled (signed negative (Bytes.toNatLE (first ++ [last])))
        (first ++ [last] ++ [signBit negative])

section SignBit

theorem low_or_signBit (negative : Bool) (byte : UInt8) (hclear : byte &&& 0x80 = 0) :
    (byte ||| signBit negative) &&& 0x7f = byte := by
  revert hclear
  revert byte
  apply Bytes.forall_byte
  cases negative with
  | false => decide +kernel
  | true => decide +kernel

theorem top_or_signBit (negative : Bool) (byte : UInt8) (hclear : byte &&& 0x80 = 0) :
    (byte ||| signBit negative) &&& 0x80 = 0 ↔ negative = false := by
  revert hclear
  revert byte
  apply Bytes.forall_byte
  cases negative with
  | false => decide +kernel
  | true => decide +kernel

theorem low_signBit (negative : Bool) : signBit negative &&& 0x7f = 0 := by
  revert negative
  decide

theorem top_signBit (negative : Bool) : signBit negative &&& 0x80 = 0 ↔ negative = false := by
  revert negative
  decide

theorem top_low (byte : UInt8) : byte &&& 0x7f &&& 0x80 = 0 := by
  revert byte
  apply Bytes.forall_byte
  decide +kernel

theorem low_or_top (byte : UInt8) :
    byte &&& 0x7f ||| signBit (byte &&& 0x80 != 0) = byte := by
  revert byte
  apply Bytes.forall_byte
  decide +kernel

end SignBit

theorem natAbs_signed (negative : Bool) (magnitude : Nat) :
    (signed negative magnitude).natAbs = magnitude := by
  cases negative with
  | false => rfl
  | true => exact Int.natAbs_neg _

theorem signed_neg_iff {negative : Bool} {magnitude : Nat} (hpos : 0 < magnitude) :
    signed negative magnitude < 0 ↔ negative = true := by
  cases negative with
  | false => simp [signed]
  | true => simpa [signed] using hpos

theorem toNat_pos {byte : UInt8} (hne : byte ≠ 0) : 0 < byte.toNat :=
  Nat.pos_of_ne_zero fun hzero => hne (UInt8.toNat_inj.mp hzero)

-- The last byte alone gives a lower bound.
theorem mul_toNat_le (first : Bytes) (last : UInt8) :
    256 ^ first.length * last.toNat ≤ Bytes.toNatLE (first ++ [last]) := by
  have hlast : Bytes.toNatLE [last] = last.toNat := by simp [Bytes.toNatLE]
  rw [Bytes.toNatLE_append, hlast]
  exact Nat.le_add_left _ _

theorem toNatLE_pos (first : Bytes) {last : UInt8} (hne : last ≠ 0) :
    0 < Bytes.toNatLE (first ++ [last]) := by
  have hpower : 0 < 256 ^ first.length := Nat.pow_pos (by omega)
  exact (Nat.mul_pos hpower (toNat_pos hne)).trans_le (mul_toNat_le first last)

-- The last byte is kept apart from the others when the magnitude is written.
theorem encode_signed (negative : Bool) (first : Bytes) {last : UInt8} (hne : last ≠ 0) :
    encode (signed negative (Bytes.toNatLE (first ++ [last]))) =
      if last &&& 0x80 = 0 then first ++ [last ||| signBit negative]
      else first ++ [last] ++ [signBit negative] := by
  have hlast : (first ++ [last]).getLast? ≠ some 0 := by simpa using hne
  have hsign : (if signed negative (Bytes.toNatLE (first ++ [last])) < 0 then 0x80 else 0) =
      signBit negative := by
    simp only [signed_neg_iff (toNatLE_pos first hne), signBit]
  simp only [encode, natAbs_signed, Bytes.ofNatLE_toNatLE hlast, hsign, List.getLast?_concat,
    List.dropLast_concat]

theorem Spelled.encode_eq {value : Int} {bytes : Bytes} (hspelled : Spelled value bytes) :
    encode value = bytes := by
  cases hspelled with
  | zero => decide +kernel
  | shared negative first hne hclear => rw [encode_signed negative first hne, if_pos hclear]
  | extra negative first hset =>
      rename_i last
      have hne : last ≠ 0 := fun hzero => hset (by rw [hzero]; rfl)
      rw [encode_signed negative first hne, if_neg hset]

theorem exists_spelled (value : Int) : ∃ bytes, Spelled value bytes := by
  by_cases hzero : value = 0
  · exact ⟨[], hzero ▸ .zero⟩
  · have hvalue : value = signed (decide (value < 0)) value.natAbs := by
      simp only [signed, decide_eq_true_eq]
      split <;> omega
    have hne : Bytes.ofNatLE value.natAbs ≠ [] := by
      rw [Bytes.ofNatLE, if_neg (by omega)]
      exact List.cons_ne_nil _ _
    obtain ⟨first, last, hmagnitude⟩ : ∃ first last,
        Bytes.ofNatLE value.natAbs = first ++ [last] :=
      ⟨_, _, (List.dropLast_append_getLast hne).symm⟩
    have hlast := Bytes.getLast?_ofNatLE_ne_zero value.natAbs
    rw [hmagnitude, List.getLast?_concat] at hlast
    rw [hvalue, ← Bytes.toNatLE_ofNatLE value.natAbs, hmagnitude]
    by_cases hclear : last &&& 0x80 = 0
    · exact ⟨_, .shared _ first (fun hzero => hlast (congrArg some hzero)) hclear⟩
    · exact ⟨_, .extra _ first hclear⟩

theorem spelled_encode (value : Int) : Spelled value (encode value) := by
  obtain ⟨bytes, hspelled⟩ := exists_spelled value
  rw [hspelled.encode_eq]
  exact hspelled

theorem signMagnitude_concat (first : Bytes) (last : UInt8) :
    signMagnitude (first ++ [last]) =
      signed (last &&& 0x80 != 0) (Bytes.toNatLE (first ++ [last &&& 0x7f])) := by
  simp only [signMagnitude, List.getLast?_concat, List.dropLast_concat, signed]
  by_cases hclear : last &&& 0x80 = 0
  · simp [hclear]
  · simp [hclear]

section Join

variable {word : BitVec 64} {shift : Nat} {bytes first : Bytes} {last : UInt8}

-- A byte that is set above the bits of a word is added to it.
theorem toNat_or_shiftLeft (byte : UInt8) (hword : word.toNat < 2 ^ shift)
    (hroom : shift + 8 ≤ 64) :
    (word ||| byte.toBitVec.setWidth 64 <<< shift).toNat = word.toNat + 2 ^ shift * byte.toNat := by
  have hbyte : byte.toNat < 2 ^ 8 := byte.toNat_lt
  have hsmall : byte.toNat < 2 ^ 64 := hbyte.trans (by omega)
  have hshifted : 2 ^ shift * byte.toNat < 2 ^ 64 := by
    calc 2 ^ shift * byte.toNat
        < 2 ^ shift * 2 ^ 8 := Nat.mul_lt_mul_of_pos_left hbyte (Nat.two_pow_pos shift)
      _ = 2 ^ (shift + 8) := (Nat.pow_add 2 shift 8).symm
      _ ≤ 2 ^ 64 := Nat.pow_le_pow_right (by omega) hroom
  rw [BitVec.toNat_or, BitVec.toNat_shiftLeft, BitVec.toNat_setWidth, UInt8.toNat_toBitVec,
    Nat.mod_eq_of_lt hsmall, Nat.shiftLeft_eq, Nat.mul_comm, Nat.mod_eq_of_lt hshifted,
    Nat.or_comm, ← Nat.two_pow_add_eq_or_of_lt hword, Nat.add_comm]

-- The bytes that are set into the word so far fill the bits below `shift`.
theorem toNat_join (hword : word.toNat < 2 ^ shift) (hroom : shift + 8 * bytes.length ≤ 64) :
    (join word shift bytes).toNat = word.toNat + 2 ^ shift * bytes.toNatLE := by
  induction bytes generalizing word shift with
  | nil => simp [join, Bytes.toNatLE]
  | cons byte rest ih =>
      rw [List.length_cons] at hroom
      have hset := toNat_or_shiftLeft byte hword (by omega)
      have hbyte := Nat.mul_le_mul_left (2 ^ shift) (Nat.le_of_lt_succ byte.toNat_lt)
      have hnext : (word ||| byte.toBitVec.setWidth 64 <<< shift).toNat < 2 ^ (shift + 8) := by
        rw [hset, Nat.pow_add]
        omega
      rw [join, ih hnext (by omega), hset, Bytes.toNatLE, Nat.pow_add]
      ring

theorem toNat_join_zero (hlength : bytes.length ≤ 8) : (join 0 0 bytes).toNat = bytes.toNatLE := by
  have hword : (0 : BitVec 64).toNat < 2 ^ 0 := by decide
  rw [toNat_join hword (by omega)]
  simp

theorem join_append (word : BitVec 64) (shift : Nat) (first rest : Bytes) :
    join word shift (first ++ rest) =
      join (join word shift first) (shift + 8 * first.length) rest := by
  induction first generalizing word shift with
  | nil => rfl
  | cons byte first ih =>
      rw [List.cons_append, join, ih, join, List.length_cons, Nat.mul_add, Nat.mul_one,
        Nat.add_assoc, Nat.add_comm 8]

theorem or_shiftLeft_and_not {low high mask : BitVec 64} (hlow : low.toNat < 2 ^ shift) :
    (low ||| high <<< shift) &&& ~~~(mask <<< shift) = low ||| (high &&& ~~~mask) <<< shift := by
  ext index hindex
  by_cases hshift : index < shift
  · simp [hshift]
  · have hpower := Nat.pow_le_pow_right (show 0 < 2 by omega) (Nat.not_lt.mp hshift)
    have hclear : low[index] = false := by
      rw [BitVec.getElem_eq_testBit_toNat]
      exact Nat.testBit_lt_two_pow (hlow.trans_le hpower)
    simp [hshift, hclear]

theorem setWidth_low (byte : UInt8) :
    byte.toBitVec.setWidth 64 &&& ~~~0x80#64 = (byte &&& 0x7f).toBitVec.setWidth 64 := by
  revert byte
  apply Bytes.forall_byte
  decide +kernel

-- Clearing the sign in the word is clearing it in the last byte.
theorem join_and_not (hlength : first.length < 8) :
    join 0 0 (first ++ [last]) &&& ~~~(0x80#64 <<< (8 * first.length)) =
      join 0 0 (first ++ [last &&& 0x7f]) := by
  have hlow : (join 0 0 first).toNat < 2 ^ (8 * first.length) := by
    rw [toNat_join_zero (Nat.le_of_lt hlength), Nat.pow_mul]
    exact Bytes.toNatLE_lt first
  rw [join_append, join_append, Nat.zero_add, join, join, join, join, or_shiftLeft_and_not hlow,
    setWidth_low]

theorem toNatLE_lt_of_short (hlength : bytes.length ≤ maxSize) : bytes.toNatLE < 2 ^ 32 := by
  calc bytes.toNatLE
      < 256 ^ bytes.length := Bytes.toNatLE_lt bytes
    _ ≤ 256 ^ 4 := Nat.pow_le_pow_right (by omega) hlength
    _ = 2 ^ 32 := by norm_num

-- The word has room to spare, so its own sign stays out of the way.
theorem toInt_join (hlength : bytes.length ≤ maxSize) : (join 0 0 bytes).toInt = bytes.toNatLE := by
  have hsmall := toNatLE_lt_of_short hlength
  have hvalue := toNat_join_zero (hlength.trans (by decide))
  rw [BitVec.toInt_eq_toNat_of_lt (by omega), hvalue]

theorem toInt_neg_join (hlength : bytes.length ≤ maxSize) :
    (-join 0 0 bytes).toInt = -(bytes.toNatLE : Int) := by
  have hsmall := toNatLE_lt_of_short hlength
  rw [BitVec.toInt_neg, toInt_join hlength]
  exact Int.bmod_eq_of_le (by omega) (by omega)

end Join

-- The word that is put together holds the number in sign and magnitude.
theorem decode_eq (requireMinimal : Bool) (bytes : Bytes) :
    decode requireMinimal bytes =
      if maxSize < bytes.length then .error .overflow
      else if requireMinimal && !isMinimal bytes then .error .notMinimal
      else .ok (signMagnitude bytes) := by
  rcases List.eq_nil_or_concat bytes with rfl | ⟨first, last, rfl⟩
  · simp [decode, isMinimal, signMagnitude]
  · rw [List.concat_eq_append, decode, List.length_append, List.length_singleton,
      List.getLast?_concat]
    by_cases hlong : maxSize < first.length + 1
    · rw [if_pos hlong, if_pos hlong]
    · have hlength (byte : UInt8) : (first ++ [byte]).length ≤ maxSize := by
        rw [List.length_append, List.length_singleton]
        omega
      have hroom : first.length < 8 := by
        rw [maxSize] at hlong
        omega
      rw [if_neg hlong, if_neg hlong, Nat.add_sub_cancel, signMagnitude_concat]
      simp only [join_and_not hroom, toInt_neg_join (hlength _), toInt_join (hlength _)]
      by_cases hclear : last &&& 0x80 = 0
      · have hlast := low_or_signBit false last hclear
        rw [signBit, if_neg Bool.false_ne_true, UInt8.or_zero] at hlast
        rw [if_pos hclear, hclear, hlast, bne_self_eq_false, signed, if_neg Bool.false_ne_true]
      · rw [if_neg hclear, bne_iff_ne.mpr hclear, signed, if_pos rfl]

theorem Spelled.signMagnitude_eq {value : Int} {bytes : Bytes} (hspelled : Spelled value bytes) :
    signMagnitude bytes = value := by
  cases hspelled with
  | zero => rfl
  | shared negative first hne hclear =>
      have htop := top_or_signBit negative _ hclear
      rw [signMagnitude_concat, low_or_signBit negative _ hclear]
      congr 1
      cases negative with
      | false => simpa using htop
      | true => simpa using htop
  | extra negative first hset =>
      have htop := top_signBit negative
      rw [signMagnitude_concat, low_signBit, Bytes.toNatLE_append_zero]
      congr 1
      cases negative with
      | false => simpa using htop
      | true => simpa using htop

theorem isMinimal_concat (first : Bytes) (last : UInt8) :
    isMinimal (first ++ [last]) = true ↔
      last &&& 0x7f ≠ 0 ∨
        ∃ start previous, first = start ++ [previous] ∧ previous &&& 0x80 ≠ 0 := by
  rcases List.eq_nil_or_concat first with rfl | ⟨start, previous, rfl⟩
  · simp [isMinimal]
  · simp [isMinimal]

theorem Spelled.isMinimal {value : Int} {bytes : Bytes} (hspelled : Spelled value bytes) :
    isMinimal bytes = true := by
  cases hspelled with
  | zero => rfl
  | shared negative first hne hclear =>
      rw [isMinimal_concat, low_or_signBit negative _ hclear]
      exact .inl hne
  | extra negative first hset => exact (isMinimal_concat _ _).mpr (.inr ⟨first, _, rfl, hset⟩)

theorem spelled_of_isMinimal {bytes : Bytes} (hminimal : isMinimal bytes = true) :
    Spelled (signMagnitude bytes) bytes := by
  rcases List.eq_nil_or_concat bytes with rfl | ⟨first, last, rfl⟩
  · exact .zero
  · rw [List.concat_eq_append] at hminimal ⊢
    have hlast := low_or_top last
    rw [signMagnitude_concat]
    by_cases hlow : last &&& 0x7f = 0
    · rw [hlow]
      -- The last byte holds the sign only, so the byte before it has its top bit set.
      rcases (isMinimal_concat first last).mp hminimal with hne | ⟨start, previous, rfl, hset⟩
      · exact absurd hlow hne
      · rw [hlow, UInt8.zero_or] at hlast
        have hspelled := Spelled.extra (last &&& 0x80 != 0) start hset
        rwa [hlast, ← Bytes.toNatLE_append_zero] at hspelled
    · have hspelled := Spelled.shared (last &&& 0x80 != 0) first hlow (top_low last)
      rwa [hlast] at hspelled

-- A magnitude that fills four bytes leaves no room for a sign.
theorem length_encode_le {value : Int} (hsmall : value.natAbs < 2 ^ 31) :
    (encode value).length ≤ maxSize := by
  have hspelled := spelled_encode value
  generalize encode value = bytes at hspelled
  cases hspelled with
  | zero => exact Nat.zero_le _
  | @shared negative first last hne hclear =>
      rw [natAbs_signed] at hsmall
      have hvalue := mul_toNat_le first last
      have hpower := Nat.le_mul_of_pos_right (256 ^ first.length) (toNat_pos hne)
      have hlength : first.length < 4 :=
        (Nat.pow_lt_pow_iff_right (by omega : 1 < 256)).mp (by omega)
      simp only [List.length_append, List.length_singleton, maxSize]
      omega
  | @extra negative first last hset =>
      rw [natAbs_signed] at hsmall
      have hvalue := mul_toNat_le first last
      have hlast : 0x80 ≤ last.toNat := Nat.not_lt.mp ((Bytes.topBit_clear_iff last).not.mp hset)
      have hpower := Nat.mul_le_mul_left (256 ^ first.length) hlast
      have hlength : first.length < 3 :=
        (Nat.pow_lt_pow_iff_right (by omega : 1 < 256)).mp (by omega)
      simp only [List.length_append, List.length_singleton, maxSize]
      omega

section Range

variable {bytes : Bytes} {value : Int} {requireMinimal : Bool}

-- A last byte with a clear top bit gives an upper bound.
theorem toNatLE_lt_of_clear (first : Bytes) {last : UInt8} (hclear : last &&& 0x80 = 0) :
    Bytes.toNatLE (first ++ [last]) < 256 ^ first.length * 0x80 := by
  have hfirst := Bytes.toNatLE_lt first
  have hlast := Nat.mul_le_mul_left (256 ^ first.length)
    (Nat.le_of_lt_succ ((Bytes.topBit_clear_iff last).mp hclear))
  have hsingle : Bytes.toNatLE [last] = last.toNat := by simp [Bytes.toNatLE]
  rw [Bytes.toNatLE_append, hsingle]
  omega

-- The sign takes one of 32 bits.
theorem natAbs_signMagnitude_lt (hlength : bytes.length ≤ maxSize) :
    (signMagnitude bytes).natAbs < 2 ^ 31 := by
  rcases List.eq_nil_or_concat bytes with rfl | ⟨first, last, rfl⟩
  · decide
  · rw [List.concat_eq_append] at hlength ⊢
    rw [List.length_append, List.length_singleton, maxSize] at hlength
    have hfirst : first.length ≤ 3 := Nat.le_of_succ_le_succ hlength
    calc (signMagnitude (first ++ [last])).natAbs
        = Bytes.toNatLE (first ++ [last &&& 0x7f]) := by
          rw [signMagnitude_concat, natAbs_signed]
      _ < 256 ^ first.length * 0x80 := toNatLE_lt_of_clear first (top_low last)
      _ ≤ 256 ^ 3 * 0x80 := Nat.mul_le_mul_right _ (Nat.pow_le_pow_right (by omega) hfirst)
      _ = 2 ^ 31 := by norm_num

theorem length_encode_le_iff (value : Int) :
    (encode value).length ≤ maxSize ↔ value.natAbs < 2 ^ 31 := by
  refine ⟨fun hlength => ?_, length_encode_le⟩
  have hsmall := natAbs_signMagnitude_lt hlength
  rwa [(spelled_encode value).signMagnitude_eq] at hsmall

-- The minimal spellings are those that are written.
theorem isMinimal_iff (bytes : Bytes) : isMinimal bytes = true ↔ ∃ value, bytes = encode value := by
  constructor
  · intro hminimal
    exact ⟨_, (spelled_of_isMinimal hminimal).encode_eq.symm⟩
  · rintro ⟨value, rfl⟩
    exact (spelled_encode value).isMinimal

-- One condition for each of the three results.
theorem decode_eq_overflow_iff :
    decode requireMinimal bytes = .error .overflow ↔ maxSize < bytes.length := by
  rw [decode_eq]
  by_cases hlong : maxSize < bytes.length
  · simp [hlong]
  · cases hrefused : requireMinimal && !isMinimal bytes with
    | true => simp [hlong]
    | false => simp [hlong]

theorem decode_eq_notMinimal_iff :
    decode requireMinimal bytes = .error .notMinimal ↔
      bytes.length ≤ maxSize ∧ requireMinimal = true ∧ isMinimal bytes = false := by
  rw [← Nat.not_lt, decode_eq]
  by_cases hlong : maxSize < bytes.length
  · simp [hlong]
  · simp [hlong]

theorem decode_eq_ok_iff :
    decode requireMinimal bytes = .ok value ↔
      bytes.length ≤ maxSize ∧ (requireMinimal = true → isMinimal bytes = true) ∧
        signMagnitude bytes = value := by
  rw [← Nat.not_lt, decode_eq]
  by_cases hlong : maxSize < bytes.length
  · simp [hlong]
  · cases requireMinimal with
    | false => simp [hlong]
    | true =>
        cases hminimal : isMinimal bytes with
        | true => simp [hlong]
        | false => simp [hlong]

-- What is written is read back, whether or not minimal spellings are asked for.
theorem decode_encode (hsmall : value.natAbs < 2 ^ 31) (requireMinimal : Bool) :
    decode requireMinimal (encode value) = .ok value := by
  have hspelled := spelled_encode value
  exact decode_eq_ok_iff.mpr
    ⟨length_encode_le hsmall, fun _ => hspelled.isMinimal, hspelled.signMagnitude_eq⟩

theorem decode_true_eq_ok_iff :
    decode true bytes = .ok value ↔ decode false bytes = .ok value ∧ bytes = encode value := by
  simp only [decode_eq_ok_iff, forall_const, Bool.false_eq_true, false_implies, true_and]
  constructor
  · rintro ⟨hshort, hminimal, rfl⟩
    exact ⟨⟨hshort, rfl⟩, (spelled_of_isMinimal hminimal).encode_eq.symm⟩
  · rintro ⟨⟨hshort, hvalue⟩, rfl⟩
    exact ⟨hshort, (spelled_encode value).isMinimal, hvalue⟩

theorem eq_encode_of_decode (hdecode : decode true bytes = .ok value) : bytes = encode value :=
  (decode_true_eq_ok_iff.mp hdecode).2

theorem decode_encode_eq (value : Int) (requireMinimal : Bool) :
    decode requireMinimal (encode value) =
      if value.natAbs < 2 ^ 31 then .ok value else .error .overflow := by
  by_cases hsmall : value.natAbs < 2 ^ 31
  · rw [if_pos hsmall, decode_encode hsmall]
  · rw [if_neg hsmall, decode_eq_overflow_iff, ← Nat.not_le, length_encode_le_iff]
    exact hsmall

end Range

-- The two directions are inverse to each other on the numbers of fewer than 32 bits and their
-- minimal spellings. Larger numbers can be written but not read, and any short element can be read
-- where minimal spellings are not asked for.
theorem decode_inverts_encode :
    (∀ (value : Int) (requireMinimal : Bool), decode requireMinimal (encode value) =
      if -(2 ^ 31 - 1) ≤ value ∧ value ≤ 2 ^ 31 - 1 then .ok value else .error .overflow) ∧
    ∀ bytes : Bytes,
      ((∃ value, decode false bytes = .ok value) ↔ bytes.length ≤ maxSize) ∧
      (∀ value, decode false bytes = .ok value → -(2 ^ 31 - 1) ≤ value ∧ value ≤ 2 ^ 31 - 1) ∧
      (∀ value, decode true bytes = .ok value ↔
        decode false bytes = .ok value ∧ bytes = encode value) ∧
      (decode true bytes = .error .notMinimal ↔
        bytes.length ≤ maxSize ∧ ∀ value, bytes ≠ encode value) ∧
      (∀ requireMinimal, decode requireMinimal bytes = .error .overflow ↔
        maxSize < bytes.length) ∧
      (isMinimal bytes = true ↔ ∃ value, bytes = encode value) := by
  have hrange (value : Int) :
      -(2 ^ 31 - 1) ≤ value ∧ value ≤ 2 ^ 31 - 1 ↔ value.natAbs < 2 ^ 31 := by
    omega
  constructor
  · intro value requireMinimal
    simp only [hrange, decode_encode_eq]
  · intro bytes
    refine ⟨?_, fun value hdecode => ?_, fun value => decode_true_eq_ok_iff, ?_,
      fun _ => decode_eq_overflow_iff, isMinimal_iff bytes⟩
    · simp [decode_eq_ok_iff]
    · obtain ⟨hshort, -, rfl⟩ := decode_eq_ok_iff.mp hdecode
      exact (hrange _).mpr (natAbs_signMagnitude_lt hshort)
    · rw [decode_eq_notMinimal_iff, ← Bool.not_eq_true, isMinimal_iff]
      simp

-- The least number of 64 bits can be written but not read back. A sign alone is read as zero, which
-- is written otherwise.
theorem decode_inverts_encode_edges :
    encode (-2 ^ 63) = [0, 0, 0, 0, 0, 0, 0, 0x80, 0x80] ∧
      (∀ requireMinimal, decode requireMinimal (encode (-2 ^ 63)) = .error .overflow) ∧
      decode false [0x80] = .ok 0 ∧ decode true [0x80] = .error .notMinimal := by
  obtain ⟨hwritten, hread⟩ := decode_inverts_encode
  obtain ⟨-, -, -, hnotMinimal, -, hminimal⟩ := hread [0x80]
  refine ⟨by decide +kernel, fun requireMinimal => ?_, by decide, ?_⟩
  · rw [hwritten, if_neg (by decide)]
  · refine hnotMinimal.mpr ⟨by decide, fun value hencoded => ?_⟩
    exact absurd (hminimal.mpr ⟨value, hencoded⟩) (by decide)

end SigOps.ScriptNum
