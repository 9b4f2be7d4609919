import Mathlib.Data.Set.Card
import SigOps.Proofs.Bytes
import SigOps.Proofs.Curve.PublicKey
import SigOps.Proofs.Signature.Blob
import SigOps.PublicKey

namespace SigOps.PublicKey

open Curve

-- Both coordinates, without the marker of a form.
def coordinates (key : PublicKey) : Bytes :=
  Bytes.fixedBE 32 key.x.val ++ Bytes.fixedBE 32 key.y.val

-- The form that repeats the parity of y.
def hybrid (key : PublicKey) : Bytes :=
  (if isOdd key.y then 0x07 else 0x06) :: key.coordinates

section Shape

variable {marker : UInt8} {body : Bytes}

theorem isCompressed_cons_iff :
    isCompressed (marker :: body) = true ↔ body.length = 32 ∧ (marker = 0x02 ∨ marker = 0x03) := by
  simp [isCompressed, compressedSize]

theorem isUncompressed_cons_iff :
    isUncompressed (marker :: body) = true ↔ body.length = 64 ∧ marker = 0x04 := by
  simp [isUncompressed, uncompressedSize]

theorem isHybrid_cons_iff :
    isHybrid (marker :: body) = true ↔ body.length = 64 ∧ (marker = 0x06 ∨ marker = 0x07) := by
  simp [isHybrid, uncompressedSize]

variable (key : PublicKey)

@[simp] theorem length_coordinates : key.coordinates.length = 64 := by
  simp only [coordinates, List.length_append, Bytes.length_fixedBE]

theorem length_compressed : key.compressed.length = compressedSize := by
  rw [compressed, List.length_cons, Bytes.length_fixedBE]
  rfl

theorem length_uncompressed : key.uncompressed.length = uncompressedSize := by
  change (0x04 :: key.coordinates).length = _
  rw [List.length_cons, length_coordinates]
  rfl

theorem length_hybrid : key.hybrid.length = uncompressedSize := by
  rw [hybrid, List.length_cons, length_coordinates]
  rfl

theorem isCompressed_compressed : isCompressed key.compressed = true := by
  refine isCompressed_cons_iff.mpr ⟨Bytes.length_fixedBE _ _, ?_⟩
  cases isOdd key.y with
  | true => exact .inr rfl
  | false => exact .inl rfl

theorem isUncompressed_uncompressed : isUncompressed key.uncompressed = true :=
  isUncompressed_cons_iff.mpr ⟨key.length_coordinates, rfl⟩

theorem isHybrid_hybrid : isHybrid key.hybrid = true := by
  refine isHybrid_cons_iff.mpr ⟨key.length_coordinates, ?_⟩
  cases isOdd key.y with
  | true => exact .inr rfl
  | false => exact .inl rfl

theorem isStrict_compressed : isStrict key.compressed = true := by
  rw [isStrict, isCompressed_compressed, Bool.true_or]

theorem isStrict_uncompressed : isStrict key.uncompressed = true := by
  rw [isStrict, isUncompressed_uncompressed, Bool.or_true]

theorem isStrict_hybrid : isStrict key.hybrid = false := by
  cases hodd : isOdd key.y with
  | true => simp [isStrict, isCompressed, isUncompressed, compressedSize, hybrid, hodd]
  | false => simp [isStrict, isCompressed, isUncompressed, compressedSize, hybrid, hodd]

end Shape

theorem coordinate_fits (coordinate : Coordinate) : coordinate.val < 256 ^ 32 :=
  coordinate.isLt.trans (by decide)

-- A coordinate of full width has one spelling.
theorem readCoordinate?_eq_some_iff {bytes : Bytes} (hlength : bytes.length = 32)
    {coordinate : Coordinate} :
    readCoordinate? bytes = some coordinate ↔ bytes = Bytes.fixedBE 32 coordinate.val := by
  have hvalue (hbytes : bytes = Bytes.fixedBE 32 coordinate.val) :
      bytes.toNatBE = coordinate.val := by
    rw [hbytes, Bytes.toNatBE_fixedBE (coordinate_fits coordinate)]
  simp only [readCoordinate?]
  split
  · rw [Option.some.injEq, Fin.ext_iff]
    refine ⟨fun heq => ?_, hvalue⟩
    rw [← heq, Bytes.fixedBE_toNatBE hlength]
  · rename_i hlarge
    simp only [reduceCtorEq, false_iff]
    exact fun hbytes => hlarge (hvalue hbytes ▸ coordinate.isLt)

theorem readPoint?_eq_some_iff {body : Bytes} (hlength : body.length = 64) {key : PublicKey} :
    readPoint? body = some key ↔ body = key.coordinates := by
  have hfirst : (body.take 32).length = 32 := by
    rw [List.length_take, hlength]
    rfl
  have hsecond : (body.drop 32).length = 32 := by rw [List.length_drop, hlength]
  simp only [readPoint?, Option.bind_eq_bind, Option.bind_eq_some_iff,
    readCoordinate?_eq_some_iff hfirst, readCoordinate?_eq_some_iff hsecond,
    ofCoordinates?_eq_some_iff]
  constructor
  · rintro ⟨x, hx, y, hy, rfl, rfl⟩
    rw [coordinates, ← hx, ← hy, List.take_append_drop]
  · rintro rfl
    refine ⟨key.x, ?_, key.y, ?_, rfl, rfl⟩
    · exact List.take_left' (Bytes.length_fixedBE _ _)
    · exact List.drop_left' (Bytes.length_fixedBE _ _)

section Reading

variable {marker : UInt8} {body bytes : Bytes} {key : PublicKey}

-- One of two markers tells the parity.
theorem parity_eq_iff {even odd : UInt8} (hne : even ≠ odd) (hmarker : marker = even ∨ marker = odd)
    (parity : Bool) : parity = (marker == odd) ↔ marker = if parity then odd else even := by
  rcases hmarker with rfl | rfl
  · cases parity <;> simp [hne]
  · cases parity <;> simp [hne.symm]

-- The shape of a byte string is the form of the only encoding that it can be.
theorem ofBytes?_of_isCompressed (hshape : isCompressed (marker :: body) = true) :
    ofBytes? (marker :: body) = some key ↔ marker :: body = key.compressed := by
  obtain ⟨hlength, hmarker⟩ := isCompressed_cons_iff.mp hshape
  have hparity := parity_eq_iff (by decide) hmarker (isOdd key.y)
  simp only [ofBytes?, if_pos hshape, Option.bind_eq_bind, Option.bind_eq_some_iff,
    readCoordinate?_eq_some_iff hlength, ofX?_eq_some_iff, hparity, compressed, List.cons.injEq]
  constructor
  · rintro ⟨x, hbody, rfl, hmarker⟩
    exact ⟨hmarker, hbody⟩
  · rintro ⟨hmarker, hbody⟩
    exact ⟨key.x, hbody, rfl, hmarker⟩

theorem ofBytes?_of_isUncompressed (hshape : isUncompressed (marker :: body) = true) :
    ofBytes? (marker :: body) = some key ↔ marker :: body = key.uncompressed := by
  obtain ⟨hlength, rfl⟩ := isUncompressed_cons_iff.mp hshape
  have hcompressed : isCompressed (0x04 :: body) = false := by simp [isCompressed]
  change _ ↔ 0x04 :: body = 0x04 :: key.coordinates
  simp only [ofBytes?, hcompressed, hshape, Bool.false_eq_true, if_false, if_true,
    readPoint?_eq_some_iff hlength, List.cons.injEq, true_and]

theorem ofBytes?_of_isHybrid (hshape : isHybrid (marker :: body) = true) :
    ofBytes? (marker :: body) = some key ↔ marker :: body = key.hybrid := by
  obtain ⟨hlength, hmarker⟩ := isHybrid_cons_iff.mp hshape
  have hparity := parity_eq_iff (by decide) hmarker (isOdd key.y)
  have hcompressed : isCompressed (marker :: body) = false := by
    simp [isCompressed, compressedSize, hlength]
  have huncompressed : isUncompressed (marker :: body) = false := by
    rcases hmarker with rfl | rfl
    · simp [isUncompressed]
    · simp [isUncompressed]
  simp only [ofBytes?, hcompressed, huncompressed, hshape, Bool.false_eq_true, if_false, if_true,
    Option.bind_eq_bind, Option.bind_eq_some_iff, readPoint?_eq_some_iff hlength, hybrid,
    List.cons.injEq, ← hparity]
  constructor
  · rintro ⟨other, hbody, hother⟩
    split at hother
    · obtain rfl := Option.some.inj hother
      exact ⟨‹_›, hbody⟩
    · cases hother
  · rintro ⟨hodd, hbody⟩
    exact ⟨key, hbody, if_pos hodd⟩

theorem ofBytes?_eq_some_iff :
    ofBytes? bytes = some key ↔
      bytes = key.compressed ∨ bytes = key.uncompressed ∨ bytes = key.hybrid := by
  constructor
  · intro hkey
    cases bytes with
    | nil => cases hkey
    | cons marker body =>
        by_cases hcompressed : isCompressed (marker :: body) = true
        · exact .inl ((ofBytes?_of_isCompressed hcompressed).mp hkey)
        by_cases huncompressed : isUncompressed (marker :: body) = true
        · exact .inr (.inl ((ofBytes?_of_isUncompressed huncompressed).mp hkey))
        by_cases hhybrid : isHybrid (marker :: body) = true
        · exact .inr (.inr ((ofBytes?_of_isHybrid hhybrid).mp hkey))
        simp only [ofBytes?, if_neg hcompressed, if_neg huncompressed, if_neg hhybrid] at hkey
        cases hkey
  · rintro (rfl | rfl | rfl)
    · exact (ofBytes?_of_isCompressed key.isCompressed_compressed).mpr rfl
    · exact (ofBytes?_of_isUncompressed key.isUncompressed_uncompressed).mpr rfl
    · exact (ofBytes?_of_isHybrid key.isHybrid_hybrid).mpr rfl

variable {strict : Bool}

theorem decode_eq_ok_iff_ofBytes? :
    decode strict bytes = .ok key ↔
      (strict = true → isStrict bytes = true) ∧ ofBytes? bytes = some key := by
  by_cases hrefused : (strict && !isStrict bytes) = true
  · rw [decode, if_pos hrefused]
    simp only [Bool.and_eq_true, Bool.not_eq_true'] at hrefused
    simp [hrefused]
  · rw [decode, if_neg hrefused]
    have hstrict : strict = true → isStrict bytes = true := by simpa using hrefused
    cases hkey : ofBytes? bytes with
    | none => simp
    | some other => simpa using fun _ => hstrict

-- A key is read from its two strict encodings, and from the hybrid one where strict rules are off.
theorem decode_eq_ok_iff :
    decode strict bytes = .ok key ↔
      bytes = key.compressed ∨ bytes = key.uncompressed ∨ strict = false ∧ bytes = key.hybrid := by
  rw [decode_eq_ok_iff_ofBytes?, ofBytes?_eq_some_iff]
  constructor
  · rintro ⟨hstrict, hbytes⟩
    refine hbytes.imp_right (Or.imp_right fun hhybrid => ⟨?_, hhybrid⟩)
    rw [hhybrid, isStrict_hybrid] at hstrict
    simpa using hstrict
  · rintro (rfl | rfl | ⟨rfl, rfl⟩)
    · exact ⟨fun _ => key.isStrict_compressed, .inl rfl⟩
    · exact ⟨fun _ => key.isStrict_uncompressed, .inr (.inl rfl)⟩
    · exact ⟨by simp, .inr (.inr rfl)⟩

theorem decode_compressed (key : PublicKey) (strict : Bool) :
    decode strict key.compressed = .ok key := decode_eq_ok_iff.mpr (.inl rfl)

theorem decode_uncompressed (key : PublicKey) (strict : Bool) :
    decode strict key.uncompressed = .ok key := decode_eq_ok_iff.mpr (.inr (.inl rfl))

end Reading

section Counting

variable (key : PublicKey)

theorem compressed_ne_uncompressed : key.compressed ≠ key.uncompressed := by
  intro heq
  have hlength := congrArg List.length heq
  rw [length_compressed, length_uncompressed] at hlength
  exact absurd hlength (by decide)

theorem ne_hybrid_of_isStrict {bytes : Bytes} (hstrict : isStrict bytes = true) :
    bytes ≠ key.hybrid := by
  rintro rfl
  rw [isStrict_hybrid] at hstrict
  cases hstrict

theorem ncard_strict_encodings : {bytes | decode true bytes = .ok key}.ncard = 2 := by
  have hencodings : {bytes | decode true bytes = .ok key} = {key.compressed, key.uncompressed} := by
    ext bytes
    simp [decode_eq_ok_iff]
  rw [hencodings, Set.ncard_pair key.compressed_ne_uncompressed]

theorem ncard_encodings : {bytes | decode false bytes = .ok key}.ncard = 3 := by
  have hencodings : {bytes | decode false bytes = .ok key} =
      {key.hybrid, key.compressed, key.uncompressed} := by
    ext bytes
    simp only [Set.mem_ofPred_eq, decode_eq_ok_iff, true_and, Set.mem_insert_iff,
      Set.mem_singleton_iff]
    tauto
  have hhybrid : key.hybrid ∉ ({key.compressed, key.uncompressed} : Set Bytes) := by
    rintro (heq | heq)
    · exact key.ne_hybrid_of_isStrict key.isStrict_compressed heq.symm
    · exact key.ne_hybrid_of_isStrict key.isStrict_uncompressed heq.symm
  rw [hencodings, Set.ncard_insert_of_notMem hhybrid,
    Set.ncard_pair key.compressed_ne_uncompressed]

end Counting

section Rules

variable {flags : Flags} {bytes : Bytes}

theorem checkStrict_eq_ok_iff : checkStrict bytes = .ok () ↔ isStrict bytes = true := by
  by_cases hstrict : isStrict bytes = true
  · simp [checkStrict, hstrict]
  · simp [checkStrict, hstrict]

theorem checkCompressed_eq_ok_iff : checkCompressed bytes = .ok () ↔ isCompressed bytes = true := by
  by_cases hcompressed : isCompressed bytes = true
  · simp [checkCompressed, hcompressed]
  · simp [checkCompressed, hcompressed]

theorem checkEncoding_eq_ok_iff :
    checkEncoding flags bytes = .ok () ↔
      (flags.enforces .strictEnc = true → isStrict bytes = true) ∧
        (flags.enforces .witnessPubkeyType = true → isCompressed bytes = true) := by
  rw [← checkStrict_eq_ok_iff, ← checkCompressed_eq_ok_iff, ← Flags.whenEnforced_eq_ok_iff,
    ← Flags.whenEnforced_eq_ok_iff, checkEncoding, bind_eq_ok_iff]
  constructor
  · rintro ⟨_, hstrict, hcompressed⟩
    exact ⟨hstrict, hcompressed⟩
  · rintro ⟨hstrict, hcompressed⟩
    exact ⟨(), hstrict, hcompressed⟩

theorem isCompressed_iff_of_isStrict (hstrict : isStrict bytes = true) :
    isCompressed bytes = true ↔ bytes.length = compressedSize := by
  cases bytes with
  | nil => cases hstrict
  | cons marker body =>
      rw [isStrict, Bool.or_eq_true, isCompressed_cons_iff, isUncompressed_cons_iff] at hstrict
      rw [isCompressed_cons_iff, List.length_cons, compressedSize]
      constructor
      · rintro ⟨hlength, -⟩
        omega
      · intro hlength
        exact hstrict.resolve_right fun hlong => by omega

-- Of the rules for keys, a strict encoding can only break the one that asks for the short form.
theorem checkEncoding_eq_ok_iff_of_isStrict (hstrict : isStrict bytes = true) :
    checkEncoding flags bytes = .ok () ↔
      (flags.enforces .witnessPubkeyType = true → bytes.length = compressedSize) := by
  rw [checkEncoding_eq_ok_iff, isCompressed_iff_of_isStrict hstrict]
  exact and_iff_right fun _ => hstrict

end Rules

-- A strict encoding is the one that is written in its form, and no rule refuses it but the one that
-- asks for the short form. Without strict rules the only other encoding is the hybrid one, which
-- differs from the long form in a marker that repeats the parity of y.
theorem decode_canonical (blob : Bytes) (key : PublicKey) :
    (decode true blob = .ok key →
      (blob.length = compressedSize ∧ key.compressed = blob ∨
        blob.length = uncompressedSize ∧ key.uncompressed = blob) ∧
      decode true key.compressed = .ok key ∧ decode true key.uncompressed = .ok key ∧
      ∀ flags, checkEncoding flags blob = .ok () ↔
        (flags.enforces .witnessPubkeyType = true → blob.length = compressedSize)) ∧
    (decode false blob = .ok key → (∃ fault, decode true blob = .error fault) →
      blob.length = uncompressedSize ∧
      ∃ body, blob = (if isOdd key.y then 0x07 else 0x06) :: body ∧
        decode true (0x04 :: body) = .ok key) ∧
    {encoding | decode true encoding = .ok key}.ncard = 2 ∧
    {encoding | decode false encoding = .ok key}.ncard = 3 := by
  refine ⟨fun hstrict => ?_, fun hdecode hnotStrict => ?_, key.ncard_strict_encodings,
    key.ncard_encodings⟩
  · have hform := (decode_eq_ok_iff_ofBytes?.mp hstrict).1 rfl
    refine ⟨?_, key.decode_compressed true, key.decode_uncompressed true,
      fun flags => checkEncoding_eq_ok_iff_of_isStrict hform⟩
    rcases decode_eq_ok_iff.mp hstrict with rfl | rfl | ⟨hfalse, -⟩
    · exact .inl ⟨key.length_compressed, rfl⟩
    · exact .inr ⟨key.length_uncompressed, rfl⟩
    · cases hfalse
  · obtain ⟨fault, hfault⟩ := hnotStrict
    rcases decode_eq_ok_iff.mp hdecode with rfl | rfl | ⟨-, rfl⟩
    · rw [decode_compressed] at hfault
      cases hfault
    · rw [decode_uncompressed] at hfault
      cases hfault
    · exact ⟨key.length_hybrid, key.coordinates, rfl, key.decode_uncompressed true⟩

def generator : PublicKey := ⟨generatorX, generatorY, by decide⟩

-- The generator has an even y coordinate. Its short form is read by taking a square root.
theorem decode_canonical_generator :
    decode true (0x02 :: Bytes.fixedBE 32 generatorX.val) = .ok generator ∧
      generator.compressed = 0x02 :: Bytes.fixedBE 32 generatorX.val ∧
      decode false (0x06 :: generator.coordinates) = .ok generator ∧
      decode true (0x06 :: generator.coordinates) = .error .notStrict ∧
      ∃ body, 0x06 :: generator.coordinates = (if isOdd generator.y then 0x07 else 0x06) :: body ∧
        decode true (0x04 :: body) = .ok generator := by
  have hshort : decode true (0x02 :: Bytes.fixedBE 32 generatorX.val) = .ok generator := by
    decide +kernel
  have hhybrid : decode false (0x06 :: generator.coordinates) = .ok generator := by decide +kernel
  have hrefused : decode true (0x06 :: generator.coordinates) = .error .notStrict := by
    decide +kernel
  obtain ⟨hstrict, -⟩ := decode_canonical (0x02 :: Bytes.fixedBE 32 generatorX.val) generator
  obtain ⟨-, hlenient, -⟩ := decode_canonical (0x06 :: generator.coordinates) generator
  obtain ⟨-, hbody⟩ := hlenient hhybrid ⟨_, hrefused⟩
  refine ⟨hshort, ?_, hhybrid, hrefused, hbody⟩
  rcases (hstrict hshort).1 with ⟨-, hcompressed⟩ | ⟨hlength, -⟩
  · exact hcompressed
  · rw [List.length_cons, Bytes.length_fixedBE] at hlength
    cases hlength

end SigOps.PublicKey
