import SigOps.Proofs.Signature.Pair
import SigOps.Signature.Blob

namespace SigOps

open Curve

theorem Flags.requiresDer_iff (flags : Flags) :
    flags.requiresDer = true ↔
      ∃ rule ∈ [Rule.strictEnc, .derSig, .lowS], flags.enforces rule = true := by
  simp [requiresDer, or_assoc]

theorem Flags.whenEnforced_eq_ok_iff {ε : Type} (flags : Flags) (rule : Rule)
    (check : Except ε Unit) :
    flags.whenEnforced rule check = .ok () ↔ (flags.enforces rule = true → check = .ok ()) := by
  unfold whenEnforced
  split
  · rename_i henforced
    exact ⟨fun hcheck _ => hcheck, fun hcheck => hcheck henforced⟩
  · rename_i hoff
    exact ⟨fun _ henforced => absurd henforced hoff, fun _ => rfl⟩

namespace Signature

variable {flags others : Flags} {blob first second : Bytes} {signature : Signature}

theorem checkEncoding_eq_ok_iff (hder : flags.requiresDer = true) :
    checkEncoding flags blob = .ok () ↔ Encoding.check blob = .ok () := by
  rw [checkEncoding, if_pos hder, mapError_eq_ok_iff]

theorem checkLowS_eq_ok_iff (pair : Pair) :
    checkLowS pair = .ok () ↔ pair.s.val ≤ groupOrder / 2 := by
  rw [checkLowS, Pair.isLowS, Pair.readS_eq, Pair.halfOrder]
  split
  · rename_i hlow
    simpa using hlow
  · rename_i hhigh
    simpa using hhigh

theorem decode_lax_of_encodes {fields : Encoding.Fields} (hencodes : Encoding.Encodes blob fields) :
    Der.decode .lax blob.dropLast = .ok (Der.Lax.pairOf fields.r fields.s) := by
  have hlength := hencodes.length_contents_le
  have hread : Der.decode? .lax blob.dropLast = some (Der.Lax.pairOf fields.r fields.s) := by
    rw [hencodes.dropLast_eq]
    exact Der.Lax.decode?_ofIntegers (by omega)
  rw [Der.decode, hread]

-- How a blob is read that aborts nothing.
inductive Parsed (flags : Flags) (blob : Bytes) : Outcome Signature → Prop where
  | empty (hblob : blob = []) : Parsed flags blob (.invalid .emptySignature)
  | unreadable {hashType : HashType} {fault : DerError}
      (hlast : HashType.ofSignature? blob = some hashType)
      (hencoding : checkEncoding flags blob = .ok ())
      (hhashType : flags.whenEnforced .strictEnc (checkHashType blob) = .ok ())
      (hdecode : Der.decode .lax blob.dropLast = .error fault) :
      Parsed flags blob (.invalid (.der fault))
  | valid {hashType : HashType} {pair : Pair}
      (hlast : HashType.ofSignature? blob = some hashType)
      (hencoding : checkEncoding flags blob = .ok ())
      (hhashType : flags.whenEnforced .strictEnc (checkHashType blob) = .ok ())
      (hdecode : Der.decode .lax blob.dropLast = .ok pair)
      (hlow : flags.whenEnforced .lowS (checkLowS pair) = .ok ()) :
      Parsed flags blob (.valid ⟨pair, hashType⟩)

theorem parsed_of_parse {outcome : Outcome Signature} (hparse : parse flags blob = .ok outcome) :
    Parsed flags blob outcome := by
  unfold parse at hparse
  cases hlast : HashType.ofSignature? blob with
  | none =>
      rw [hlast] at hparse
      cases hparse
      rw [HashType.ofSignature?, Option.map_eq_none_iff, List.getLast?_eq_none_iff] at hlast
      exact .empty hlast
  | some hashType =>
      rw [hlast] at hparse
      obtain ⟨_, hencoding, hparse⟩ := bind_eq_ok_iff.mp hparse
      obtain ⟨_, hhashType, hparse⟩ := bind_eq_ok_iff.mp hparse
      cases hdecode : Der.decode .lax blob.dropLast with
      | error fault =>
          rw [hdecode] at hparse
          cases hparse
          exact .unreadable hlast hencoding hhashType hdecode
      | ok pair =>
          rw [hdecode] at hparse
          obtain ⟨_, hlow, hparse⟩ := bind_eq_ok_iff.mp hparse
          cases hparse
          exact .valid hlast hencoding hhashType hdecode hlow

-- What a blob that passes the checks encodes, and what is read from it.
theorem exists_encodes_of_parse (hder : flags.requiresDer = true) (hblob : blob ≠ [])
    {outcome : Outcome Signature} (hparse : parse flags blob = .ok outcome) :
    ∃ fields, Encoding.Encodes blob fields ∧
      outcome = .valid ⟨Der.Lax.pairOf fields.r fields.s, ⟨fields.hashType⟩⟩ ∧
      (flags.enforces .lowS = true →
        (Der.Lax.pairOf fields.r fields.s).s.val ≤ groupOrder / 2) := by
  have hfields (hencoding : checkEncoding flags blob = .ok ()) :
      ∃ fields, Encoding.Encodes blob fields :=
    (Encoding.check_eq_ok_iff blob).mp ((checkEncoding_eq_ok_iff hder).mp hencoding)
  cases parsed_of_parse hparse with
  | empty hnil => exact absurd hnil hblob
  | unreadable _ hencoding _ hdecode =>
      obtain ⟨fields, hencodes⟩ := hfields hencoding
      rw [decode_lax_of_encodes hencodes] at hdecode
      cases hdecode
  | valid hlast hencoding _ hdecode hlow =>
      obtain ⟨fields, hencodes⟩ := hfields hencoding
      rw [decode_lax_of_encodes hencodes] at hdecode
      cases hdecode
      rw [HashType.ofSignature?, hencodes.getLast?_eq] at hlast
      cases hlast
      refine ⟨fields, hencodes, rfl, fun henforced => ?_⟩
      exact (checkLowS_eq_ok_iff _).mp ((Flags.whenEnforced_eq_ok_iff _ _ _).mp hlow henforced)

theorem parse_eq_invalid_iff (hder : flags.requiresDer = true) (reason : Unusable) :
    parse flags blob = .ok (.invalid reason) ↔ blob = [] ∧ reason = .emptySignature := by
  constructor
  · intro hparse
    by_cases hblob : blob = []
    · subst hblob
      exact ⟨rfl, (Outcome.invalid.inj (Except.ok.inj hparse)).symm⟩
    · obtain ⟨fields, -, houtcome, -⟩ := exists_encodes_of_parse hder hblob hparse
      cases houtcome
  · rintro ⟨rfl, rfl⟩
    rfl

-- A blob that is no signature can be told by the reader, and only where its encoding is not
-- checked.
theorem decode_of_parse_invalid {reason : Unusable} (hblob : blob ≠ [])
    (hparse : parse flags blob = .ok (.invalid reason)) :
    flags.requiresDer = false ∧ ∃ fault, Der.decode .lax blob.dropLast = .error fault := by
  constructor
  · by_contra hder
    rw [Bool.not_eq_false] at hder
    exact hblob ((parse_eq_invalid_iff hder reason).mp hparse).1
  · cases parsed_of_parse hparse with
    | empty hnil => exact absurd hnil hblob
    | unreadable _ _ _ hdecode => exact ⟨_, hdecode⟩

theorem exists_encodes_of_parse_valid (hder : flags.requiresDer = true)
    (hparse : parse flags blob = .ok (.valid signature)) :
    ∃ fields, Encoding.Encodes blob fields ∧
      signature = ⟨Der.Lax.pairOf fields.r fields.s, ⟨fields.hashType⟩⟩ ∧
      (flags.enforces .lowS = true → signature.pair.s.val ≤ groupOrder / 2) := by
  have hblob : blob ≠ [] := by
    rintro rfl
    cases hparse
  obtain ⟨fields, hencodes, houtcome, hlow⟩ := exists_encodes_of_parse hder hblob hparse
  obtain rfl := Outcome.valid.inj houtcome
  exact ⟨fields, hencodes, rfl, hlow⟩

-- Blobs that are read as a signature are its encoding, or encode an integer that is out of range.
theorem eq_or_zero_of_parse_valid (hder : flags.requiresDer = true)
    (hparse : parse flags blob = .ok (.valid signature)) :
    blob = Der.ofPair signature.pair ++ [signature.hashType.byte] ∨
      signature.pair = .zero ∧ ∃ fields, Encoding.Encodes blob fields ∧
        (groupOrder ≤ fields.r ∨ groupOrder ≤ fields.s) := by
  obtain ⟨fields, hencodes, rfl, -⟩ := exists_encodes_of_parse_valid hder hparse
  rcases Der.Lax.val_pairOf_or fields.r fields.s with ⟨hr, hs⟩ | ⟨hzero, hrange⟩
  · left
    rw [Der.ofPair_eq, hr, hs, hencodes.eq_toBytes, Encoding.Fields.toBytes_eq]
  · exact .inr ⟨hzero, fields, hencodes, hrange⟩

-- Two blobs for one signature are the same, even when they are read under different rules.
theorem parse_valid_unique (hder : flags.requiresDer = true) (hothers : others.requiresDer = true)
    (hfirst : parse flags first = .ok (.valid signature))
    (hsecond : parse others second = .ok (.valid signature)) :
    first = second ∨ signature.pair = .zero := by
  rcases eq_or_zero_of_parse_valid hder hfirst with hfirst | ⟨hzero, -⟩
  · rcases eq_or_zero_of_parse_valid hothers hsecond with hsecond | ⟨hzero, -⟩
    · exact .inl (hfirst.trans hsecond.symm)
    · exact .inr hzero
  · exact .inr hzero

-- The rules that ask for the strict encoding leave no way to change a blob but not its signature.
theorem parse_not_malleable (flags : Flags)
    (hrule : ∃ rule ∈ [Rule.strictEnc, .derSig, .lowS], flags.enforces rule = true) :
    (∀ blob reason, parse flags blob = .ok (.invalid reason) ↔
      blob = [] ∧ reason = .emptySignature) ∧
    (∀ blob signature, parse flags blob = .ok (.valid signature) →
      blob.getLast? = some signature.hashType.byte ∧
      (blob = Der.ofPair signature.pair ++ [signature.hashType.byte] ∨
        signature.pair = .zero ∧ ∃ fields, Encoding.Encodes blob fields ∧
          (groupOrder ≤ fields.r ∨ groupOrder ≤ fields.s)) ∧
      (flags.enforces .lowS = true → signature.pair.s.val ≤ groupOrder / 2)) ∧
    ∀ others : Flags, (∃ rule ∈ [Rule.strictEnc, .derSig, .lowS], others.enforces rule = true) →
      ∀ first second signature, parse flags first = .ok (.valid signature) →
        parse others second = .ok (.valid signature) →
        first = second ∨ signature.pair = .zero := by
  have hder := flags.requiresDer_iff.mpr hrule
  refine ⟨fun blob reason => parse_eq_invalid_iff hder reason, fun blob signature hparse => ?_, ?_⟩
  · have hforms := eq_or_zero_of_parse_valid hder hparse
    obtain ⟨fields, hencodes, rfl, hlow⟩ := exists_encodes_of_parse_valid hder hparse
    exact ⟨hencodes.getLast?_eq, hforms, hlow⟩
  · intro others hothers first second signature hfirst hsecond
    exact parse_valid_unique hder (others.requiresDer_iff.mpr hothers) hfirst hsecond

-- R and S are one. No other blob encodes that pair with that hash type.
theorem parse_not_malleable_ones :
    (∃ rule ∈ [Rule.strictEnc, .derSig, .lowS], Flags.standard.enforces rule = true) ∧
      parse Flags.standard [0x30, 6, 2, 1, 1, 2, 1, 1, 1] = .ok (.valid ⟨⟨1, 1⟩, .all⟩) ∧
      ∀ other, parse Flags.standard other = .ok (.valid ⟨⟨1, 1⟩, .all⟩) →
        other = [0x30, 6, 2, 1, 1, 2, 1, 1, 1] := by
  have hrule : ∃ rule ∈ [Rule.strictEnc, .derSig, .lowS], Flags.standard.enforces rule = true :=
    ⟨.strictEnc, by decide, rfl⟩
  have hones : parse Flags.standard [0x30, 6, 2, 1, 1, 2, 1, 1, 1] =
      .ok (.valid ⟨⟨1, 1⟩, .all⟩) := by
    decide
  refine ⟨hrule, hones, fun other hother => ?_⟩
  obtain ⟨-, -, hunique⟩ := parse_not_malleable Flags.standard hrule
  rcases hunique Flags.standard hrule other _ _ hother hones with hsame | hzero
  · exact hsame
  · exact absurd hzero (by decide)

end Signature

end SigOps
