import SigOps.Proofs.Bytes
import SigOps.Signature.Der

namespace SigOps

theorem Pair.ofNats?_eq_some_iff {r s : Nat} {pair : Pair} :
    ofNats? r s = some pair ↔ pair.r.val = r ∧ pair.s.val = s := by
  unfold ofNats?
  constructor
  · intro hpair
    split at hpair
    · cases hpair
      exact ⟨rfl, rfl⟩
    · cases hpair
  · rintro ⟨rfl, rfl⟩
    exact dif_pos ⟨pair.r.isLt, pair.s.isLt⟩

theorem Pair.ofNats?_eq_none_iff {r s : Nat} :
    ofNats? r s = none ↔ Curve.groupOrder ≤ r ∨ Curve.groupOrder ≤ s := by
  unfold ofNats?
  split
  · rename_i hrange
    simp only [reduceCtorEq, false_iff]
    omega
  · rename_i hrange
    simp only [true_iff]
    omega

namespace Der

-- Not empty and not negative, and a first byte of zero only keeps the top bit clear.
def IsMinimal : Bytes → Prop
  | [] => False
  | [first] => first &&& 0x80 = 0
  | first :: second :: _ => first &&& 0x80 = 0 ∧ (first = 0 → second &&& 0x80 ≠ 0)

theorem IsMinimal.cons {first : UInt8} {rest : Bytes} (hclear : first &&& 0x80 = 0)
    (hfirst : first ≠ 0) : IsMinimal (first :: rest) := by
  cases rest with
  | nil => exact hclear
  | cons second rest => exact ⟨hclear, fun hzero => absurd hzero hfirst⟩

theorem IsMinimal.clear {first : UInt8} {rest : Bytes} (hminimal : IsMinimal (first :: rest)) :
    first &&& 0x80 = 0 := by
  cases rest with
  | nil => exact hminimal
  | cons second rest => exact hminimal.1

theorem IsMinimal.length_pos {digits : Bytes} (hminimal : IsMinimal digits) :
    0 < digits.length := by
  cases digits with
  | nil => cases hminimal
  | cons first rest => exact Nat.succ_pos _

theorem isMinimal_content (value : Nat) : IsMinimal (content value) := by
  have hhead := Bytes.head?_ofNatBE_ne_zero value
  unfold content
  split
  · exact rfl
  · rename_i first rest hspelling
    rw [hspelling, List.head?_cons, ne_eq, Option.some.injEq] at hhead
    split_ifs with hclear
    · exact .cons hclear hhead
    · exact ⟨rfl, fun _ => hclear⟩

@[simp] theorem toNatBE_content (value : Nat) : (content value).toNatBE = value := by
  have hvalue := Bytes.toNatBE_ofNatBE value
  unfold content
  split
  · rename_i hspelling
    rw [hspelling] at hvalue
    rw [← hvalue]
    rfl
  · rename_i first rest hspelling
    rw [hspelling] at hvalue
    split_ifs
    · exact hvalue
    · rw [Bytes.toNatBE_zero_cons, hvalue]

theorem content_injective : Function.Injective content :=
  Function.LeftInverse.injective toNatBE_content

theorem content_of_clear {first : UInt8} {rest : Bytes} (hfirst : first ≠ 0)
    (hclear : first &&& 0x80 = 0) : content (Bytes.toNatBE (first :: rest)) = first :: rest := by
  rw [content, Bytes.ofNatBE_toNatBE (by simpa using hfirst)]
  simp only [if_pos hclear]

theorem content_of_set {first : UInt8} {rest : Bytes} (hset : first &&& 0x80 ≠ 0) :
    content (Bytes.toNatBE (first :: rest)) = 0 :: first :: rest := by
  have hfirst : first ≠ 0 := by
    rintro rfl
    exact hset rfl
  rw [content, Bytes.ofNatBE_toNatBE (by simpa using hfirst)]
  simp only [if_neg hset]

theorem content_toNatBE {digits : Bytes} (hminimal : IsMinimal digits) :
    content digits.toNatBE = digits := by
  cases digits with
  | nil => cases hminimal
  | cons first rest =>
      by_cases hfirst : first = 0
      · -- a zero stands alone, or before a byte that needs it
        subst hfirst
        cases rest with
        | nil =>
            rw [Bytes.toNatBE_zero_cons, content, show Bytes.toNatBE [] = 0 from rfl,
              Bytes.ofNatBE_zero]
        | cons second rest => rw [Bytes.toNatBE_zero_cons, content_of_set (hminimal.2 rfl)]
      · exact content_of_clear hfirst hminimal.clear

theorem length_content_le {value : Nat} (hsize : value < 256 ^ 32) :
    (content value).length ≤ 33 := by
  have hlength := (Bytes.length_ofNatBE_le_iff value 32).mpr hsize
  unfold content
  split
  · simp
  · rename_i first rest hspelling
    rw [hspelling] at hlength
    split_ifs
    · omega
    · rw [List.length_cons]
      omega

-- A pair of numbers of any size. Pairs of residues are a case of it.
def ofIntegers (r s : Nat) : Bytes :=
  element sequenceTag (element integerTag (content r) ++ element integerTag (content s))

theorem ofPair_eq (pair : Pair) : ofPair pair = ofIntegers pair.r.val pair.s.val :=
  rfl

-- Lengths below 128 are their own encoding.
theorem toNat_ofNat_of_short {length : Nat} (hshort : length < 0x80) :
    (UInt8.ofNat length).toNat = length := by
  rw [UInt8.toNat_ofNat']
  omega

theorem clear_of_short {length : Nat} (hshort : length < 0x80) :
    UInt8.ofNat length &&& 0x80 = 0 := by
  rw [Bytes.topBit_clear_iff, toNat_ofNat_of_short hshort]
  exact hshort

theorem length_element (tag : UInt8) (body : Bytes) :
    (element tag body).length = body.length + 2 :=
  rfl

theorem length_integers (r s : Nat) :
    (element integerTag (content r) ++ element integerTag (content s)).length =
      (content r).length + (content s).length + 4 := by
  rw [List.length_append, length_element, length_element]
  omega

namespace Lax

theorem skipLength?_short {length : Nat} (hshort : length < 0x80) (rest : Bytes) :
    skipLength? (UInt8.ofNat length :: rest) = some rest := by
  rw [skipLength?, if_pos (clear_of_short hshort)]

theorem readLength?_short {length : Nat} (hshort : length < 0x80) (rest : Bytes) :
    readLength? (UInt8.ofNat length :: rest) = some (length, rest) := by
  rw [readLength?, if_pos (clear_of_short hshort), toNat_ofNat_of_short hshort]

theorem readInteger?_element {digits : Bytes} (hshort : digits.length < 0x80) (after : Bytes) :
    readInteger? (element integerTag digits ++ after) = some (digits, after) := by
  simp only [element, List.cons_append, readInteger?, if_pos, readLength?_short hshort,
    Option.bind_eq_bind, Option.bind_some, Bytes.split?_length_append]

theorem readIntegers?_ofIntegers {r s : Nat}
    (hshort : (content r).length + (content s).length + 4 < 0x80) :
    readIntegers? (ofIntegers r s) = some (content r, content s) := by
  have hr : (content r).length < 0x80 := by omega
  have hs : (content s).length < 0x80 := by omega
  have hlast := readInteger?_element hs []
  rw [List.append_nil] at hlast
  rw [← length_integers] at hshort
  rw [ofIntegers, element]
  simp only [readIntegers?, if_pos, skipLength?_short hshort, Option.bind_eq_bind,
    Option.bind_some, readInteger?_element hr, hlast]

theorem decode?_ofIntegers {r s : Nat}
    (hshort : (content r).length + (content s).length + 4 < 0x80) :
    decode? (ofIntegers r s) = some (pairOf r s) := by
  simp only [decode?, readIntegers?_ofIntegers hshort, Option.bind_eq_bind, Option.bind_some,
    toNatBE_content]

-- A pair that is read has the integers that were written, or one of them was out of range.
theorem val_pairOf_or (r s : Nat) :
    ((pairOf r s).r.val = r ∧ (pairOf r s).s.val = s) ∨
      (pairOf r s = .zero ∧ (Curve.groupOrder ≤ r ∨ Curve.groupOrder ≤ s)) := by
  unfold pairOf
  cases hpair : Pair.ofNats? r s with
  | some pair => exact .inl (Pair.ofNats?_eq_some_iff.mp hpair)
  | none => exact .inr ⟨rfl, Pair.ofNats?_eq_none_iff.mp hpair⟩

end Lax

namespace Strict

theorem readLength?_short {length : Nat} (hshort : length < 0x80) (rest : Bytes) :
    readLength? (UInt8.ofNat length :: rest) = some (length, rest) := by
  rw [readLength?, if_pos (clear_of_short hshort), toNat_ofNat_of_short hshort]

theorem not_isPadded {digits : Bytes} (hminimal : IsMinimal digits) : isPadded digits = false := by
  cases digits with
  | nil => rfl
  | cons first rest =>
      cases rest with
      | nil => rfl
      | cons second rest =>
          have hnegative : first ≠ 0xff := by
            rintro rfl
            exact absurd hminimal.1 (by decide)
          simpa [isPadded, hnegative] using hminimal.2

theorem readInteger?_element {digits : Bytes} (hminimal : IsMinimal digits)
    (hshort : digits.length < 0x80) (after : Bytes) :
    readInteger? (element integerTag digits ++ after) = some (digits, after) := by
  have hempty : digits.isEmpty = false := by
    cases digits with
    | nil => cases hminimal
    | cons first rest => rfl
  simp only [element, List.cons_append, readInteger?, if_pos, readLength?_short hshort,
    Option.bind_eq_bind, Option.bind_some, Bytes.split?_length_append, hempty,
    not_isPadded hminimal, Bool.or_self, Bool.false_eq_true, if_false]

theorem readIntegers?_ofIntegers {r s : Nat}
    (hshort : (content r).length + (content s).length + 4 < 0x80) :
    readIntegers? (ofIntegers r s) = some (content r, content s) := by
  have hr : (content r).length < 0x80 := by omega
  have hs : (content s).length < 0x80 := by omega
  have hlast := readInteger?_element (isMinimal_content s) hs []
  rw [List.append_nil] at hlast
  rw [← length_integers] at hshort
  rw [ofIntegers, element]
  simp only [readIntegers?, if_pos, readLength?_short hshort, Option.bind_eq_bind,
    Option.bind_some, readInteger?_element (isMinimal_content r) hr, hlast, List.isEmpty_nil]

theorem isNegative_content (value : Nat) : isNegative (content value) = false := by
  have hminimal := isMinimal_content value
  unfold isNegative
  split
  · rfl
  · rename_i first rest hcontent
    rw [hcontent] at hminimal
    simp [hminimal.clear]

theorem scalarOf_content (scalar : Curve.Scalar) : scalarOf (content scalar.val) = scalar := by
  have hrange : isNegative (content scalar.val) = false ∧
      (content scalar.val).toNatBE < Curve.groupOrder := by
    rw [toNatBE_content]
    exact ⟨isNegative_content _, scalar.isLt⟩
  rw [scalarOf, dif_pos hrange, Fin.ext_iff]
  exact toNatBE_content _

end Strict

theorem groupOrder_lt : Curve.groupOrder < 256 ^ 32 := by decide

theorem length_content_scalar_le (scalar : Curve.Scalar) : (content scalar.val).length ≤ 33 :=
  length_content_le (scalar.isLt.trans groupOrder_lt)

theorem decode_ofPair (mode : Mode) (pair : Pair) : decode mode (ofPair pair) = .ok pair := by
  have hr := length_content_scalar_le pair.r
  have hs := length_content_scalar_le pair.s
  have hshort : (content pair.r.val).length + (content pair.s.val).length + 4 < 0x80 := by omega
  have hdecode : decode? mode (ofPair pair) = some pair := by
    cases mode with
    | strict =>
        simp only [decode?, Strict.decode?, ofPair_eq, Strict.readIntegers?_ofIntegers hshort,
          Option.bind_eq_bind, Option.bind_some, Strict.scalarOf_content]
    | lax =>
        simp only [decode?, ofPair_eq, Lax.decode?_ofIntegers hshort, Lax.pairOf,
          Pair.ofNats?_eq_some_iff.mpr ⟨rfl, rfl⟩, Option.getD_some]
  rw [decode, hdecode]

end Der

end SigOps
