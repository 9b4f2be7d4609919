import SigOps.Proofs.Lockstep
import SigOps.Proofs.Signature.Der
import SigOps.Signature.Encoding

namespace SigOps.Encoding

open Der

-- A check that can fail before others is passed together with them.
theorem refuse_eq_ok_iff {condition : Prop} [Decidable condition] {fault : EncodingFault}
    {next : Except EncodingFault Unit} :
    (if condition then .error fault else next) = .ok () ↔ ¬condition ∧ next = .ok () := by
  by_cases hcondition : condition <;> simp [hcondition]

theorem refuse_eq_ok_iff_exists {condition : Prop} [Decidable condition] {fault : EncodingFault}
    {next : ¬condition → Except EncodingFault Unit} :
    (if hcondition : condition then .error fault else next hcondition) = .ok () ↔
      ∃ hcondition, next hcondition = .ok () := by
  by_cases hcondition : condition <;> simp [hcondition]

-- Where the bytes are cut, only the content decides.
theorem checkInteger_eq_ok_iff (before digits after : Bytes) {blob : Bytes} {start length : Nat}
    {zeroLength negative padding : EncodingFault} (hblob : blob = before ++ (digits ++ after))
    (hstart : before.length = start) (hlength : digits.length = length)
    (hbound : start + length < blob.length) :
    checkInteger blob start length hbound zeroLength negative padding = .ok () ↔
      IsMinimal digits := by
  subst hblob hstart hlength
  unfold checkInteger
  cases digits with
  | nil => simp [IsMinimal]
  | cons first rest =>
      cases rest with
      | nil => simp [IsMinimal, topBit]
      | cons second rest =>
          by_cases hclear : first &&& 0x80 = 0
          · simp [IsMinimal, topBit, hclear]
          · simp [IsMinimal, topBit, hclear]

section Layout

variable {blob digitsR digitsS : Bytes} {tag length tagR sizeR tagS sizeS hashType : UInt8}

-- The checks on a blob that is cut at the lengths it announces.
theorem check_layout
    (hblob : blob = tag :: length :: tagR :: sizeR ::
      (digitsR ++ (tagS :: sizeS :: (digitsS ++ [hashType]))))
    (hr : digitsR.length = sizeR.toNat) (hs : digitsS.length = sizeS.toNat) :
    check blob = .ok () ↔
      digitsR.length + digitsS.length + 7 ≤ 73 ∧ tag = 0x30 ∧
        length.toNat = digitsR.length + digitsS.length + 4 ∧
        tagR = 0x02 ∧ IsMinimal digitsR ∧ tagS = 0x02 ∧ IsMinimal digitsS := by
  have hlength : blob.length = digitsR.length + digitsS.length + 7 := by
    simp only [hblob, List.length_cons, List.length_append, List.length_nil]
    omega
  -- what each read finds, then what each integer check decides
  have htag (hbound : 0 < blob.length) : blob[0] = tag := by
    simp only [hblob, List.getElem_cons_zero]
  have hcovered (hbound : 1 < blob.length) : blob[1] = length := by simp [hblob]
  have htagR (hbound : 2 < blob.length) : blob[2] = tagR := by simp [hblob]
  have hsizeR (hbound : 3 < blob.length) : blob[3] = sizeR := by simp [hblob]
  have htagS (hbound : 4 + sizeR.toNat < blob.length) : blob[4 + sizeR.toNat] = tagS := by
    simp [hblob, ← hr, Nat.add_comm 4]
  have hsizeS (hbound : 5 + sizeR.toNat < blob.length) : blob[5 + sizeR.toNat] = sizeS := by
    simp [hblob, ← hr, Nat.add_comm 5]
  have hintegerR {zeroLength negative padding : EncodingFault}
      (hbound : 4 + sizeR.toNat < blob.length) :
      checkInteger blob 4 sizeR.toNat hbound zeroLength negative padding = .ok () ↔
        IsMinimal digitsR :=
    checkInteger_eq_ok_iff [tag, length, tagR, sizeR] digitsR _ hblob rfl hr hbound
  have hintegerS {zeroLength negative padding : EncodingFault}
      (hbound : 6 + sizeR.toNat + sizeS.toNat < blob.length) :
      checkInteger blob (6 + sizeR.toNat) sizeS.toNat hbound zeroLength negative padding =
        .ok () ↔ IsMinimal digitsS :=
    checkInteger_eq_ok_iff ([tag, length, tagR, sizeR] ++ digitsR ++ [tagS, sizeS]) digitsS
      [hashType] (by simp [hblob]) (by simp; omega) hs hbound
  unfold check
  simp only [refuse_eq_ok_iff, refuse_eq_ok_iff_exists, bind_eq_ok_iff, htag, hcovered, htagR,
    hsizeR, htagS, hsizeS, hintegerR, hintegerS, hlength]
  simp only [ne_eq, Decidable.not_not, exists_prop, exists_const]
  constructor
  · rintro ⟨-, hmax, rfl, hcover, -, -, rfl, hminimalR, rfl, hminimalS⟩
    exact ⟨Nat.not_lt.mp hmax, rfl, by omega, rfl, hminimalR, rfl, hminimalS⟩
  · rintro ⟨hmax, rfl, hcover, rfl, hminimalR, rfl, hminimalS⟩
    -- minimal contents are not empty, which makes up the least size
    have hposR := hminimalR.length_pos
    have hposS := hminimalS.length_pos
    refine ⟨?_, Nat.not_lt.mpr hmax, rfl, ?_, ?_, ?_, rfl, hminimalR, rfl, hminimalS⟩
    · rw [minSize]
      omega
    all_goals omega

end Layout

-- Any blob of the right length can be cut that way.
theorem exists_layout {blob : Bytes} {sizeR sizeS : Nat}
    (hlength : blob.length = sizeR + sizeS + 7) :
    ∃ tag length tagR lengthR digitsR tagS lengthS digitsS hashType,
      blob = tag :: length :: tagR :: lengthR ::
        (digitsR ++ (tagS :: lengthS :: (digitsS ++ [hashType]))) ∧
      digitsR.length = sizeR ∧ digitsS.length = sizeS := by
  obtain ⟨tag, afterTag, rfl, hsix⟩ := List.length_eq_succ_iff.mp hlength
  obtain ⟨length, afterLength, rfl, hfive⟩ := List.length_eq_succ_iff.mp hsix
  obtain ⟨tagR, afterTagR, rfl, hfour⟩ := List.length_eq_succ_iff.mp hfive
  obtain ⟨lengthR, rest, rfl, hthree⟩ := List.length_eq_succ_iff.mp hfour
  have hafter : (rest.drop sizeR).length = sizeS + 1 + 1 + 1 := by
    rw [List.length_drop]
    omega
  obtain ⟨tagS, afterTagS, htagS, htwo⟩ := List.length_eq_succ_iff.mp hafter
  obtain ⟨lengthS, last, rfl, hone⟩ := List.length_eq_succ_iff.mp htwo
  have hne : last ≠ [] := by
    rintro rfl
    cases hone
  refine ⟨tag, length, tagR, lengthR, rest.take sizeR, tagS, lengthS, last.dropLast,
    last.getLast hne, ?_, ?_, ?_⟩
  · rw [List.dropLast_concat_getLast hne, htagS, List.take_append_drop]
  · rw [List.length_take]
    omega
  · rw [List.length_dropLast]
    omega

-- What a blob encodes.
@[ext]
structure Fields where
  r : Nat
  s : Nat
  hashType : UInt8

-- Sequence tag and length, integer tag, length and content of R and of S, hash type.
def Fields.toBytes (fields : Fields) : Bytes :=
  let contentR := content fields.r
  let contentS := content fields.s
  [0x30, .ofNat (contentR.length + contentS.length + 4)] ++
    [0x02, .ofNat contentR.length] ++ contentR ++
    [0x02, .ofNat contentS.length] ++ contentS ++ [fields.hashType]

structure Encodes (blob : Bytes) (fields : Fields) : Prop where
  eq_toBytes : blob = fields.toBytes
  length_le : blob.length ≤ 73

theorem Fields.toBytes_eq_layout (fields : Fields) :
    fields.toBytes =
      0x30 :: .ofNat ((content fields.r).length + (content fields.s).length + 4) ::
        0x02 :: .ofNat (content fields.r).length ::
          (content fields.r ++
            (0x02 :: .ofNat (content fields.s).length ::
              (content fields.s ++ [fields.hashType]))) := by
  simp only [toBytes, List.append_assoc, List.cons_append, List.nil_append]

theorem Fields.toBytes_eq (fields : Fields) :
    fields.toBytes = ofIntegers fields.r fields.s ++ [fields.hashType] := by
  rw [toBytes_eq_layout, ofIntegers, element, length_integers]
  simp only [element, sequenceTag, integerTag, List.append_assoc, List.cons_append]

namespace Encodes

variable {blob : Bytes} {fields : Fields}

theorem length_contents_le (hencodes : Encodes blob fields) :
    (content fields.r).length + (content fields.s).length + 7 ≤ 73 := by
  have hlength := hencodes.length_le
  rw [hencodes.eq_toBytes, Fields.toBytes_eq, ofIntegers] at hlength
  simp only [List.length_append, length_element, List.length_cons, List.length_nil] at hlength
  omega

theorem dropLast_eq (hencodes : Encodes blob fields) :
    blob.dropLast = ofIntegers fields.r fields.s := by
  rw [hencodes.eq_toBytes, Fields.toBytes_eq, List.dropLast_concat]

theorem getLast?_eq (hencodes : Encodes blob fields) : blob.getLast? = some fields.hashType := by
  rw [hencodes.eq_toBytes, Fields.toBytes_eq, List.getLast?_concat]

theorem readIntegers?_dropLast (hencodes : Encodes blob fields) :
    Lax.readIntegers? blob.dropLast = some (content fields.r, content fields.s) := by
  have hlength := hencodes.length_contents_le
  rw [hencodes.dropLast_eq]
  exact Lax.readIntegers?_ofIntegers (by omega)

-- What is encoded can be read back, so it is determined by the blob.
theorem unique {other : Fields} (hencodes : Encodes blob fields) (hother : Encodes blob other) :
    fields = other := by
  have hcontents := hencodes.readIntegers?_dropLast.symm.trans hother.readIntegers?_dropLast
  rw [Option.some.injEq, Prod.mk.injEq] at hcontents
  have hhashType := hencodes.getLast?_eq.symm.trans hother.getLast?_eq
  exact Fields.ext (content_injective hcontents.1) (content_injective hcontents.2)
    (Option.some.inj hhashType)

theorem check_eq_ok (hencodes : Encodes blob fields) : check blob = .ok () := by
  have hlength := hencodes.length_contents_le
  have hblob := hencodes.eq_toBytes.trans fields.toBytes_eq_layout
  have hr : (UInt8.ofNat (content fields.r).length).toNat = (content fields.r).length :=
    toNat_ofNat_of_short (by omega)
  have hs : (UInt8.ofNat (content fields.s).length).toNat = (content fields.s).length :=
    toNat_ofNat_of_short (by omega)
  exact (check_layout hblob hr.symm hs.symm).mpr
    ⟨hlength, rfl, toNat_ofNat_of_short (by omega), rfl, isMinimal_content _, rfl,
      isMinimal_content _⟩

end Encodes

theorem sizes_of_check {blob : Bytes} (hcheck : check blob = .ok ()) :
    ∃ sizeR sizeS, blob[3]? = some sizeR ∧ blob[5 + sizeR.toNat]? = some sizeS ∧
      blob.length = sizeR.toNat + sizeS.toNat + 7 := by
  unfold check at hcheck
  simp only [refuse_eq_ok_iff, refuse_eq_ok_iff_exists] at hcheck
  obtain ⟨hmin, -, -, -, hr, hs, -⟩ := hcheck
  exact ⟨_, _, List.getElem?_eq_getElem _, List.getElem?_eq_getElem _, by omega⟩

theorem exists_encodes_of_check {blob : Bytes} (hcheck : check blob = .ok ()) :
    ∃ fields, Encodes blob fields := by
  obtain ⟨sizeR, sizeS, hsizeR, hsizeS, hlength⟩ := sizes_of_check hcheck
  obtain ⟨tag, length, tagR, lengthR, digitsR, tagS, lengthS, digitsS, hashType, hblob, hr, hs⟩ :=
    exists_layout hlength
  obtain rfl : lengthR = sizeR := by simpa [hblob] using hsizeR
  obtain rfl : lengthS = sizeS := by simpa [hblob, ← hr, Nat.add_comm 5] using hsizeS
  obtain ⟨hmax, rfl, hcover, rfl, hminimalR, rfl, hminimalS⟩ :=
    (check_layout hblob hr hs).mp hcheck
  have hlengthByte : length = .ofNat (digitsR.length + digitsS.length + 4) := by
    rw [← hcover, UInt8.ofNat_toNat]
  -- minimal contents are those of the numbers they spell
  refine ⟨⟨Bytes.toNatBE digitsR, Bytes.toNatBE digitsS, hashType⟩, ?_, by omega⟩
  rw [Fields.toBytes_eq_layout, content_toNatBE hminimalR, content_toNatBE hminimalS,
    ← hlengthByte, hr, hs, UInt8.ofNat_toNat, UInt8.ofNat_toNat]
  exact hblob

theorem check_eq_ok_iff (blob : Bytes) : check blob = .ok () ↔ ∃ fields, Encodes blob fields :=
  ⟨exists_encodes_of_check, fun ⟨_, hencodes⟩ => hencodes.check_eq_ok⟩

section Reads

-- An outcome of checks, or none if one of them reads outside of the blob.
abbrev Reading := ExceptT EncodingFault Option

def readByte (blob : Bytes) (index : Nat) : Reading UInt8 := ExceptT.lift blob[index]?

def refuse (fault : EncodingFault) (condition : Prop) [Decidable condition] : Reading Unit :=
  if condition then throw fault else pure ()

-- The sequence, up to the length of R.
def readOuterStructure (blob : Bytes) : Reading Unit := do
  refuse .tooShort (blob.length < minSize)
  refuse .tooLong (maxSize < blob.length)
  refuse .sequenceId ((← readByte blob 0) ≠ sequenceTag)
  refuse .dataLength ((← readByte blob 1).toNat ≠ blob.length - 3)
  refuse .lengthR (blob.length ≤ 5 + (← readByte blob 3).toNat)

def readInteger (blob : Bytes) (start length : Nat) (zeroLength negative padding : EncodingFault) :
    Reading Unit := do
  refuse zeroLength (length = 0)
  refuse negative (topBit (← readByte blob start))
  if 1 < length then
    if (← readByte blob start) = 0 then
      refuse padding (topBit (← readByte blob (start + 1)) = false)

def readIntegers (blob : Bytes) : Reading Unit := do
  let sizeR := (← readByte blob 3).toNat
  let sizeS := (← readByte blob (5 + sizeR)).toNat
  refuse .lengthRS (sizeR + sizeS + 7 ≠ blob.length)
  refuse .integerIdR ((← readByte blob 2) ≠ integerTag)
  readInteger blob 4 sizeR .zeroLengthR .negativeR .paddingR
  refuse .integerIdS ((← readByte blob (4 + sizeR)) ≠ integerTag)
  readInteger blob (6 + sizeR) sizeS .zeroLengthS .negativeS .paddingS

theorem readByte_bind {blob : Bytes} {index : Nat} (hbound : index < blob.length)
    {next : UInt8 → Reading Unit} :
    readByte blob index >>= next = next blob[index] := by
  rw [readByte, List.getElem?_eq_getElem hbound]
  rfl

theorem run_refuse (fault : EncodingFault) (condition : Prop) [Decidable condition] :
    (refuse fault condition).run = some (if condition then .error fault else .ok ()) := by
  unfold refuse
  split
  · rfl
  · rfl

theorem run_refuse_bind_dite {fault : EncodingFault} {condition : Prop} [Decidable condition]
    {next : Unit → Reading Unit} {result : ¬condition → Except EncodingFault Unit}
    (hnext : ∀ hcondition, (next ()).run = some (result hcondition)) :
    (refuse fault condition >>= next).run =
      some (if hcondition : condition then .error fault else result hcondition) := by
  by_cases hcondition : condition
  · simp only [refuse, if_pos hcondition, dif_pos hcondition]
    rfl
  · simp only [refuse, if_neg hcondition, dif_neg hcondition]
    exact hnext hcondition

theorem run_refuse_bind {fault : EncodingFault} {condition : Prop} [Decidable condition]
    {next : Unit → Reading Unit} {result : Except EncodingFault Unit}
    (hnext : ¬condition → (next ()).run = some result) :
    (refuse fault condition >>= next).run =
      some (if condition then .error fault else result) := by
  rw [← dite_eq_ite]
  exact run_refuse_bind_dite hnext

theorem run_bind {first second : Reading Unit} {result next : Except EncodingFault Unit}
    (hfirst : first.run = some result) (hsecond : second.run = some next) :
    (first >>= fun _ => second).run = some (result >>= fun _ => next) := by
  obtain rfl : first = some result := hfirst
  cases result with
  | error fault => rfl
  | ok => exact hsecond

theorem run_readInteger {blob : Bytes} {start length : Nat}
    (hbound : start + length < blob.length) (zeroLength negative padding : EncodingFault) :
    (readInteger blob start length zeroLength negative padding).run =
      some (checkInteger blob start length hbound zeroLength negative padding) := by
  unfold readInteger checkInteger
  refine run_refuse_bind_dite fun hzero => ?_
  rw [readByte_bind (by omega)]
  refine run_refuse_bind fun hnegative => ?_
  by_cases hlong : 1 < length
  · rw [if_pos hlong, dif_pos hlong, readByte_bind (by omega)]
    by_cases hfirst : blob[start] = 0
    · rw [if_pos hfirst, readByte_bind (by omega), run_refuse]
      simp only [hfirst, true_and]
    · rw [if_neg hfirst, if_neg fun hpadded => hfirst hpadded.1]
      rfl
  · rw [if_neg hlong, dif_neg hlong]
    rfl

theorem run_reads (blob : Bytes) :
    (do readOuterStructure blob; readIntegers blob : Reading Unit).run = some (check blob) := by
  -- Check by check in their order: the bound of a read is what the refusals before it leave.
  unfold readOuterStructure check
  simp only [bind_assoc]
  refine run_refuse_bind_dite fun hmin => ?_
  rw [minSize] at hmin
  refine run_refuse_bind fun hmax => ?_
  rw [readByte_bind (by omega)]
  refine run_refuse_bind fun hsequence => ?_
  rw [readByte_bind (by omega)]
  refine run_refuse_bind fun hcover => ?_
  rw [readByte_bind (by omega)]
  refine run_refuse_bind_dite fun hr => ?_
  rw [readIntegers, readByte_bind (by omega), readByte_bind (by omega)]
  refine run_refuse_bind_dite fun hs => ?_
  rw [readByte_bind (by omega)]
  refine run_refuse_bind fun htagR => ?_
  refine run_bind (run_readInteger _ _ _ _) ?_
  rw [readByte_bind (by omega)]
  exact run_refuse_bind fun htagS => run_readInteger _ _ _ _

end Reads

-- The blobs that pass are the encodings, each of one triple. The checks with reads that may fail
-- come to the same result, so no blob makes them read outside of it.
theorem check_grammar (blob : Bytes) :
    (check blob = .ok () ↔ ∃ fields, Encodes blob fields) ∧
      (∀ first second, Encodes blob first → Encodes blob second → first = second) ∧
      (do readOuterStructure blob; readIntegers blob : Reading Unit).run = some (check blob) :=
  ⟨check_eq_ok_iff blob, fun _ _ hfirst hsecond => hfirst.unique hsecond, run_reads blob⟩

end SigOps.Encoding
