import SigOps.Proofs.Signature.Der.Grammar

namespace SigOps.Der

-- The number that a content spells in two's complement.
def integer (digits : Bytes) : Int := (digits.toNatBE : Int).bmod (256 ^ digits.length)

-- The integer is a residue as it stands.
def InRange (digits : Bytes) : Prop := 0 ≤ integer digits ∧ integer digits < Curve.groupOrder

instance (digits : Bytes) : Decidable (InRange digits) :=
  inferInstanceAs (Decidable (0 ≤ integer digits ∧ integer digits < Curve.groupOrder))

theorem Element.mono {Spells Others : Nat → Bytes → Prop} {tag : UInt8} {body bytes : Bytes}
    (helement : Element Spells tag body bytes)
    (hspells : ∀ spelled, Spells body.length spelled → Others body.length spelled) :
    Element Others tag body bytes := by
  cases helement with
  | intro hlength => exact .intro (hspells _ hlength)

namespace Strict

variable {length : Nat} {spelled bytes body digits r s : Bytes} {tag : UInt8}

-- The top bit of the first byte is the sign.
theorem integer_eq (digits : Bytes) :
    integer digits =
      if isNegative digits then (digits.toNatBE : Int) - (256 ^ digits.length : Nat)
      else digits.toNatBE := by
  cases digits with
  | nil => rfl
  | cons first rest =>
      have hrest := Bytes.toNatBE_lt rest
      have hvalue := Bytes.toNatBE_cons first rest
      have hlt := Bytes.toNatBE_lt (first :: rest)
      have hpower : 256 ^ (first :: rest).length = 256 ^ rest.length * 256 := by
        rw [List.length_cons, Nat.pow_succ]
      have hmod : (Bytes.toNatBE (first :: rest) : Int) % (256 ^ (first :: rest).length : Nat) =
          Bytes.toNatBE (first :: rest) :=
        Int.emod_eq_of_lt (by omega) (by omega)
      rw [integer, Int.bmod_def, hmod]
      by_cases hclear : first &&& 0x80 = 0
      · have hfirst := Nat.mul_le_mul_left (256 ^ rest.length)
          (Nat.le_of_lt_succ ((Bytes.topBit_clear_iff first).mp hclear))
        rw [if_pos (by omega), if_neg (by simp [isNegative, hclear])]
      · have hfirst := Nat.mul_le_mul_left (256 ^ rest.length)
          (Nat.not_lt.mp ((Bytes.topBit_clear_iff first).not.mp hclear))
        rw [if_neg (by omega), if_pos (by simp [isNegative, hclear])]

theorem inRange_iff :
    InRange digits ↔ isNegative digits = false ∧ digits.toNatBE < Curve.groupOrder := by
  have hlt := Bytes.toNatBE_lt digits
  rw [InRange, integer_eq]
  cases isNegative digits with
  | false => simp
  | true =>
      simp only [if_true, Bool.true_eq_false, false_and, iff_false]
      omega

theorem integer_of_inRange (hrange : InRange digits) : integer digits = digits.toNatBE := by
  rw [integer_eq, (inRange_iff.mp hrange).1]
  rfl

theorem val_scalarOf (digits : Bytes) :
    ((scalarOf digits).val : Int) = if InRange digits then integer digits else 0 := by
  by_cases hrange : InRange digits
  · rw [if_pos hrange, integer_of_inRange hrange, scalarOf, dif_pos (inRange_iff.mp hrange)]
  · rw [if_neg hrange, scalarOf, dif_neg (inRange_iff.not.mp hrange)]
    rfl

theorem Length.lax (hspelled : Length length spelled) (hfits : length < 256 ^ 7) :
    Lax.Length length spelled := by
  cases hspelled with
  | short hshort => exact .short hshort
  | long hlong _ =>
      have hcount := (Bytes.length_ofNatBE_le_iff length 7).mpr hfits
      have hdigits : (Bytes.ofNatBE length).toNatBE = length := Bytes.toNatBE_ofNatBE length
      have hlax : Lax.Length (Bytes.ofNatBE length).toNatBE (counted (Bytes.ofNatBE length)) :=
        .long (by omega) (by rwa [hdigits])
      rwa [hdigits] at hlax

theorem Length.any (hspelled : Length length spelled) : Lax.AnyLength spelled := by
  cases hspelled with
  | short hshort => exact .short hshort
  | long _ hfits =>
      have hcount := (Bytes.length_ofNatBE_le_iff length 8).mpr hfits
      exact .long (by omega)

-- An integer of 2⁵⁶ bytes or more has a length of eight digits, which is too long a length there.
theorem Layout.lax (hlayout : Layout r s bytes) (hsize : bytes.length < 256 ^ 7) :
    Lax.Layout r s bytes := by
  cases hlayout with
  | intro hr hs _ _ hsequence =>
      have hbody := hsequence.length_le
      have hfirst := hr.length_le
      have hsecond := hs.length_le
      rw [List.length_append] at hbody
      cases hsequence with
      | intro hspelled =>
          have hlax := Lax.Layout.intro [] hspelled.any
            (hr.mono fun _ hlength => hlength.lax (by omega))
            (hs.mono fun _ hlength => hlength.lax (by omega))
          rwa [List.append_nil] at hlax

theorem IsInteger.isMinimal (hinteger : IsInteger digits) (hclear : isNegative digits = false) :
    IsMinimal digits := by
  obtain ⟨hne, hpadded⟩ := hinteger
  cases digits with
  | nil => exact absurd rfl hne
  | cons first rest =>
      have hfirst : first &&& 0x80 = 0 := by simpa [isNegative] using hclear
      cases rest with
      | nil => exact hfirst
      | cons second rest =>
          refine ⟨hfirst, fun hzero hsecond => ?_⟩
          simp [isPadded, hzero, hsecond] at hpadded

theorem content_of_inRange (hinteger : IsInteger digits) (hrange : InRange digits) :
    content (scalarOf digits).val = digits := by
  have hvalue := val_scalarOf digits
  rw [if_pos hrange, integer_of_inRange hrange, Nat.cast_inj] at hvalue
  rw [hvalue, content_toNatBE (hinteger.isMinimal (inRange_iff.mp hrange).1)]

theorem element_of_short (helement : Element Length tag body bytes) (hshort : body.length < 0x80) :
    bytes = element tag body := by
  cases helement with
  | intro hlength =>
      cases hlength with
      | short => rfl
      | long hlong => exact absurd hshort (Nat.not_lt.mpr hlong)

-- Residues have short contents, so there is no choice of spelling left.
theorem Layout.eq_ofPair (hlayout : Layout r s bytes) (hr : InRange r) (hs : InRange s) :
    bytes = ofPair ⟨scalarOf r, scalarOf s⟩ := by
  cases hlayout with
  | intro hfirst hsecond hintegerR hintegerS hsequence =>
      have hcontentR := content_of_inRange hintegerR hr
      have hcontentS := content_of_inRange hintegerS hs
      have hlengthR := length_content_scalar_le (scalarOf r)
      have hlengthS := length_content_scalar_le (scalarOf s)
      have hlength := length_integers (scalarOf r).val (scalarOf s).val
      rw [ofPair_eq, ofIntegers]
      rw [hcontentR] at hlengthR hlength ⊢
      rw [hcontentS] at hlengthS hlength ⊢
      rw [element_of_short hfirst (by omega), element_of_short hsecond (by omega)] at hsequence
      exact element_of_short hsequence (by omega)

end Strict

-- What the strict reader reads from fewer than 2⁵⁶ bytes, the permissive one reads too, as unsigned
-- integers. Where the strict reader replaces neither integer by zero, they read the same pair and
-- it has no other encoding. The permissive reader does not see what follows.
theorem decode_lax_extends_strict :
    (∀ (bytes : Bytes) (strict : Pair), bytes.length < 2 ^ 56 →
      decode .strict bytes = .ok strict →
      ∃ r s, Strict.Layout r s bytes ∧
        (∀ r' s', Strict.Layout r' s' bytes → r' = r ∧ s' = s) ∧
        (strict.r.val : Int) = (if InRange r then integer r else 0) ∧
        (strict.s.val : Int) = (if InRange s then integer s else 0) ∧
        decode .lax bytes = .ok (Lax.pairOf r.toNatBE s.toNatBE) ∧
        (InRange r → InRange s → decode .lax bytes = .ok strict ∧ ofPair strict = bytes)) ∧
    ∀ (bytes suffix : Bytes) (lax : Pair),
      decode .lax bytes = .ok lax → decode .lax (bytes ++ suffix) = .ok lax := by
  constructor
  · intro bytes strict hsize hstrict
    obtain ⟨r, s, hlayout, rfl⟩ := Strict.decode_eq_ok_iff.mp hstrict
    have hfits : bytes.length < 256 ^ 7 := by rwa [show 256 ^ 7 = 2 ^ 56 by norm_num]
    have hlax := Lax.decode_eq_ok_iff.mpr ⟨r, s, hlayout.lax hfits, rfl⟩
    refine ⟨r, s, hlayout, fun _ _ => hlayout.unique, Strict.val_scalarOf r, Strict.val_scalarOf s,
      hlax, fun hr hs => ?_⟩
    have hbytes := hlayout.eq_ofPair hr hs
    exact ⟨hbytes ▸ decode_ofPair .lax _, hbytes.symm⟩
  · intro bytes suffix lax hlax
    obtain ⟨r, s, hlayout, hpair⟩ := Lax.decode_eq_ok_iff.mp hlax
    exact Lax.decode_eq_ok_iff.mpr ⟨r, s, hlayout.append suffix, hpair⟩

-- An R below zero is zero to the one reader and 128 to the other. They agree where R is one.
theorem decode_lax_extends_strict_negative :
    decode .strict [0x30, 6, 2, 1, 0x80, 2, 1, 5] = .ok ⟨0, 5⟩ ∧
      decode .lax [0x30, 6, 2, 1, 0x80, 2, 1, 5, 7] = .ok ⟨128, 5⟩ ∧
      decode .lax [0x30, 6, 2, 1, 1, 2, 1, 5, 7] = .ok ⟨1, 5⟩ ∧
      ofPair ⟨1, 5⟩ = [0x30, 6, 2, 1, 1, 2, 1, 5] := by
  have hnegative : decode .strict [0x30, 6, 2, 1, 0x80, 2, 1, 5] = .ok ⟨0, 5⟩ := by decide
  have hpositive : decode .strict [0x30, 6, 2, 1, 1, 2, 1, 5] = .ok ⟨1, 5⟩ := by decide
  obtain ⟨hextends, happend⟩ := decode_lax_extends_strict
  obtain ⟨_, _, -, hnegativeUnique, -, -, hlax, -⟩ := hextends _ _ (by decide) hnegative
  obtain ⟨rfl, rfl⟩ := hnegativeUnique [0x80] [5] (Strict.readIntegers?_eq_some_iff.mp (by decide))
  obtain ⟨_, _, -, hpositiveUnique, -, -, -, hsame⟩ := hextends _ _ (by decide) hpositive
  obtain ⟨rfl, rfl⟩ := hpositiveUnique [1] [5] (Strict.readIntegers?_eq_some_iff.mp (by decide))
  obtain ⟨hread, hwritten⟩ := hsame (by decide) (by decide)
  exact ⟨hnegative, happend _ [7] _ hlax, happend _ [7] _ hread, hwritten⟩

end SigOps.Der
