import SigOps.Proofs.Signature.Encoding

namespace SigOps

open Curve

namespace Pair

theorem groupOrder_lt_two_pow : groupOrder < 2 ^ 256 := by decide

theorem pow_integerSize : 256 ^ integerSize = 2 ^ 256 := by norm_num [integerSize]

section Compact

variable {integer : Nat}

theorem toNatBE_integerBytes (integer : Nat) : (integerBytes integer).toNatBE = integer := by
  rw [integerBytes]
  split
  · rename_i hzero
    rw [hzero]
    rfl
  · exact Bytes.toNatBE_ofNatBE integer

theorem length_integerBytes_le_iff :
    (integerBytes integer).length ≤ integerSize ↔ integer < 2 ^ 256 := by
  rw [integerBytes]
  split
  · rename_i hzero
    rw [hzero]
    decide
  · rw [Bytes.length_ofNatBE_le_iff, pow_integerSize]

-- An integer that fits is spelled with zeros up to its half.
theorem replicate_append_integerBytes (hfits : integer < 2 ^ 256) :
    List.replicate (integerSize - (integerBytes integer).length) 0 ++ integerBytes integer =
      Bytes.fixedBE integerSize integer := by
  have hshort := length_integerBytes_le_iff.mpr hfits
  have hlength : (List.replicate (integerSize - (integerBytes integer).length) 0 ++
      integerBytes integer).length = integerSize := by
    rw [List.length_append, List.length_replicate]
    omega
  rw [← Bytes.fixedBE_toNatBE hlength, Bytes.toNatBE_replicate_zero_append, toNatBE_integerBytes]

-- The half between `front` and `back` is filled, zeros first.
theorem writeInteger_of_fits (front back : Bytes) (hfits : integer < 2 ^ 256) :
    writeInteger front.length integer (front ++ List.replicate integerSize 0 ++ back) =
      .ok (front ++ Bytes.fixedBE integerSize integer ++ back) := by
  have hshort := length_integerBytes_le_iff.mpr hfits
  have hfilled := replicate_append_integerBytes hfits
  rw [writeInteger, if_neg (Nat.not_lt.mpr hshort)]
  generalize integerBytes integer = bytes at hshort hfilled
  obtain ⟨zeros, hzeros⟩ := Nat.exists_eq_add_of_le' hshort
  rw [hzeros, Nat.add_sub_cancel] at hfilled
  have hstart : front.length + integerSize - bytes.length =
      (front ++ List.replicate zeros 0).length := by
    rw [List.length_append, List.length_replicate]
    omega
  have hreplaced : (List.replicate bytes.length (0 : UInt8)).length = bytes.length :=
    List.length_replicate
  rw [hstart, hzeros, List.replicate_add, ← List.append_assoc front,
    Bytes.overwrite_append _ _ hreplaced, List.append_assoc front, hfilled]

theorem writeInteger_of_large (offset : Nat) (compact : Bytes) (hlarge : 2 ^ 256 ≤ integer) :
    writeInteger offset integer compact = .error .integerTooLarge := by
  have hlong := length_integerBytes_le_iff.not.mpr (Nat.not_lt.mpr hlarge)
  rw [writeInteger, if_pos (Nat.not_le.mp hlong)]

theorem ofCompact?_append {first second : Bytes} (hfirst : first.length = integerSize)
    (hsecond : second.length = integerSize) :
    ofCompact? (first ++ second) = ofNats? first.toNatBE second.toNatBE := by
  have hlength : (first ++ second).length = compactSize := by
    rw [List.length_append, hfirst, hsecond]
    rfl
  rw [ofCompact?, if_pos hlength, List.take_left' hfirst, List.drop_left' hfirst]

theorem toNatBE_fixedBE_scalar (value : Scalar) :
    (Bytes.fixedBE integerSize value.val).toNatBE = value.val := by
  rw [Bytes.toNatBE_fixedBE]
  rw [pow_integerSize]
  exact value.isLt.trans groupOrder_lt_two_pow

-- The readers give back the integers of the pair.
@[simp] theorem readR_eq (pair : Pair) : pair.readR = pair.r.val := by
  rw [readR, toCompact, List.take_left' (Bytes.length_fixedBE _ _), toNatBE_fixedBE_scalar]

@[simp] theorem readS_eq (pair : Pair) : pair.readS = pair.s.val := by
  rw [readS, toCompact, List.drop_left' (Bytes.length_fixedBE _ _), toNatBE_fixedBE_scalar]

theorem ofCompact?_toCompact (pair : Pair) : ofCompact? pair.toCompact = some pair := by
  rw [toCompact, ofCompact?_append (Bytes.length_fixedBE _ _) (Bytes.length_fixedBE _ _),
    toNatBE_fixedBE_scalar, toNatBE_fixedBE_scalar]
  exact ofNats?_eq_some_iff.mpr ⟨rfl, rfl⟩

end Compact

section LowS

-- The library and the check draw the line at the same value.
theorem isHighS_eq (pair : Pair) : pair.isHighS = !pair.isLowS := by
  have hbound : greatestLowS = halfOrder := by decide
  rw [isHighS, isLowS, readS_eq, hbound, ← decide_not]
  congr 1
  exact propext Nat.not_le.symm

theorem isHighS_normalize (pair : Pair) : pair.normalize.isHighS = false := by
  rw [normalize]
  split
  · rename_i hhigh
    have hodd : groupOrder = 2 * greatestLowS + 1 := by decide
    rw [isHighS, decide_eq_true_eq] at hhigh
    rw [isHighS, decide_eq_false_iff_not, Nat.not_lt, Fin.val_neg]
    split
    · exact Nat.zero_le _
    · omega
  · rename_i hlow
    exact Bool.eq_false_iff.mpr hlow

end LowS

variable {r s : Nat}

theorem writeInteger_first (hr : r < 2 ^ 256) :
    writeInteger 0 r (List.replicate compactSize 0) =
      .ok (Bytes.fixedBE integerSize r ++ List.replicate integerSize 0) := by
  have hhalves : List.replicate compactSize (0 : UInt8) =
      List.replicate integerSize 0 ++ List.replicate integerSize 0 := by
    rw [List.replicate_append_replicate]
    rfl
  rw [hhalves]
  exact writeInteger_of_fits [] (List.replicate integerSize 0) hr

theorem writeInteger_second {first : Bytes} (hfirst : first.length = integerSize)
    (hs : s < 2 ^ 256) :
    writeInteger integerSize s (first ++ List.replicate integerSize 0) =
      .ok (first ++ Bytes.fixedBE integerSize s) := by
  have hwritten := writeInteger_of_fits first [] hs
  rwa [hfirst, List.append_nil, List.append_nil] at hwritten

-- Integers that fit are read back as they were written.
theorem ofIntegers_of_fits (hr : r < 2 ^ 256) (hs : s < 2 ^ 256) :
    ofIntegers r s = (ofNats? r s).elim (.error .malformed) .ok := by
  have hlength (integer : Nat) := Bytes.length_fixedBE integerSize integer
  have hread : ofCompact? (Bytes.fixedBE integerSize r ++ Bytes.fixedBE integerSize s) =
      ofNats? r s := by
    rw [ofCompact?_append (hlength r) (hlength s), Bytes.toNatBE_fixedBE (pow_integerSize ▸ hr),
      Bytes.toNatBE_fixedBE (pow_integerSize ▸ hs)]
  simp only [ofIntegers, writeInteger_first hr, writeInteger_second (hlength r) hs, hread,
    Bind.bind, Except.bind]
  cases ofNats? r s with
  | some pair => rfl
  | none => rfl

theorem ofIntegers_of_large (hlarge : 2 ^ 256 ≤ r ∨ 2 ^ 256 ≤ s) :
    ofIntegers r s = .error .integerTooLarge := by
  by_cases hr : 2 ^ 256 ≤ r
  · simp only [ofIntegers, writeInteger_of_large _ _ hr, Bind.bind, Except.bind]
  · have hs := hlarge.resolve_left hr
    simp only [ofIntegers, writeInteger_first (Nat.not_le.mp hr), writeInteger_of_large _ _ hs,
      Bind.bind, Except.bind]

theorem ofIntegers_of_outOfRange (hfits : ¬(2 ^ 256 ≤ r ∨ 2 ^ 256 ≤ s))
    (hrange : groupOrder ≤ r ∨ groupOrder ≤ s) : ofIntegers r s = .error .malformed := by
  rw [not_or, Nat.not_le, Nat.not_le] at hfits
  rw [ofIntegers_of_fits hfits.1 hfits.2, ofNats?_eq_none_iff.mpr hrange, Option.elim_none]

theorem ofIntegers_val (pair : Pair) : ofIntegers pair.r.val pair.s.val = .ok pair := by
  have hr := pair.r.isLt.trans groupOrder_lt_two_pow
  have hs := pair.s.isLt.trans groupOrder_lt_two_pow
  rw [ofIntegers_of_fits hr hs, ofNats?_eq_some_iff.mpr ⟨rfl, rfl⟩, Option.elim_some]

-- Each pair of integers is too large, out of range, or the integers of a pair.
theorem large_or_outOfRange_or_val (r s : Nat) :
    (2 ^ 256 ≤ r ∨ 2 ^ 256 ≤ s) ∨
      (¬(2 ^ 256 ≤ r ∨ 2 ^ 256 ≤ s) ∧ (groupOrder ≤ r ∨ groupOrder ≤ s)) ∨
      ∃ pair : Pair, pair.r.val = r ∧ pair.s.val = s := by
  by_cases hrange : r < groupOrder ∧ s < groupOrder
  · exact .inr (.inr ⟨⟨⟨r, hrange.1⟩, ⟨s, hrange.2⟩⟩, rfl, rfl⟩)
  · by_cases hlarge : 2 ^ 256 ≤ r ∨ 2 ^ 256 ≤ s
    · exact .inl hlarge
    · exact .inr (.inl ⟨hlarge, by omega⟩)

theorem ofIntegers_eq_ok_iff {pair : Pair} :
    ofIntegers r s = .ok pair ↔ pair.r.val = r ∧ pair.s.val = s := by
  constructor
  · intro hpair
    rcases large_or_outOfRange_or_val r s with hlarge | ⟨hfits, hrange⟩ | ⟨other, rfl, rfl⟩
    · rw [ofIntegers_of_large hlarge] at hpair
      cases hpair
    · rw [ofIntegers_of_outOfRange hfits hrange] at hpair
      cases hpair
    · rw [ofIntegers_val] at hpair
      cases hpair
      exact ⟨rfl, rfl⟩
  · rintro ⟨rfl, rfl⟩
    exact ofIntegers_val pair

theorem ofIntegers_eq_tooLarge_iff :
    ofIntegers r s = .error .integerTooLarge ↔ 2 ^ 256 ≤ r ∨ 2 ^ 256 ≤ s := by
  refine ⟨fun herror => ?_, ofIntegers_of_large⟩
  rcases large_or_outOfRange_or_val r s with hlarge | ⟨hfits, hrange⟩ | ⟨pair, rfl, rfl⟩
  · exact hlarge
  · rw [ofIntegers_of_outOfRange hfits hrange] at herror
    cases herror
  · rw [ofIntegers_val] at herror
    cases herror

theorem ofIntegers_eq_malformed_iff :
    ofIntegers r s = .error .malformed ↔
      ¬(2 ^ 256 ≤ r ∨ 2 ^ 256 ≤ s) ∧ (groupOrder ≤ r ∨ groupOrder ≤ s) := by
  refine ⟨fun herror => ?_, fun ⟨hfits, hrange⟩ => ofIntegers_of_outOfRange hfits hrange⟩
  rcases large_or_outOfRange_or_val r s with hlarge | hmalformed | ⟨pair, rfl, rfl⟩
  · rw [ofIntegers_of_large hlarge] at herror
    cases herror
  · exact hmalformed
  · rw [ofIntegers_val] at herror
    cases herror

theorem exists_ofIntegers_iff :
    (∃ pair, ofIntegers r s = .ok pair) ↔ r < groupOrder ∧ s < groupOrder := by
  simp only [ofIntegers_eq_ok_iff]
  constructor
  · rintro ⟨pair, rfl, rfl⟩
    exact ⟨pair.r.isLt, pair.s.isLt⟩
  · rintro ⟨hr, hs⟩
    exact ⟨⟨⟨r, hr⟩, ⟨s, hs⟩⟩, rfl, rfl⟩

theorem encodes_ofPair (pair : Pair) (hashType : UInt8) :
    Encoding.Encodes (Der.ofPair pair ++ [hashType]) ⟨pair.r.val, pair.s.val, hashType⟩ := by
  have hr := Der.length_content_scalar_le pair.r
  have hs := Der.length_content_scalar_le pair.s
  refine ⟨(Encoding.Fields.toBytes_eq ⟨pair.r.val, pair.s.val, hashType⟩).symm, ?_⟩
  rw [Der.ofPair_eq, Der.ofIntegers, List.length_append, Der.length_element, Der.length_integers,
    List.length_singleton]
  omega

-- Integers make a pair exactly when both are residues, and the pair keeps them through its
-- encoding.
theorem ofIntegers_round_trip (r s : Nat) :
    ((∃ pair, ofIntegers r s = .ok pair) ↔ r < groupOrder ∧ s < groupOrder) ∧
    (ofIntegers r s = .error .integerTooLarge ↔ 2 ^ 256 ≤ r ∨ 2 ^ 256 ≤ s) ∧
    (ofIntegers r s = .error .malformed ↔
      ¬(2 ^ 256 ≤ r ∨ 2 ^ 256 ≤ s) ∧ (groupOrder ≤ r ∨ groupOrder ≤ s)) ∧
    ∀ pair, ofIntegers r s = .ok pair →
      pair.readR = r ∧ pair.readS = s ∧
      (∀ mode, Der.decode mode (Der.ofPair pair) = .ok pair) ∧
      ∀ hashType, Encoding.check (Der.ofPair pair ++ [hashType]) = .ok () := by
  refine ⟨exists_ofIntegers_iff, ofIntegers_eq_tooLarge_iff, ofIntegers_eq_malformed_iff, ?_⟩
  intro pair hpair
  obtain ⟨hr, hs⟩ := ofIntegers_eq_ok_iff.mp hpair
  refine ⟨?_, ?_, fun mode => Der.decode_ofPair mode pair,
    fun hashType => (encodes_ofPair pair hashType).check_eq_ok⟩
  · rw [readR_eq, hr]
  · rw [readS_eq, hs]

end Pair

end SigOps
