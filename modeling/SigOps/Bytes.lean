namespace SigOps

abbrev Bytes := List UInt8

namespace Bytes

-- The number whose base 256 digits are the bytes, least significant first.
def toNatLE : Bytes → Nat
  | [] => 0
  | byte :: rest => byte.toNat + 256 * toNatLE rest

-- The number whose base 256 digits are the bytes, most significant first.
def toNatBE (bytes : Bytes) : Nat := toNatLE bytes.reverse

-- The shortest spelling, least significant first. Zero is the empty string.
def ofNatLE (value : Nat) : Bytes :=
  if value = 0 then [] else UInt8.ofNat value :: ofNatLE (value / 256)

-- The shortest spelling, most significant first. Zero is the empty string.
def ofNatBE (value : Nat) : Bytes :=
  (ofNatLE value).reverse

-- The low `width` digits, least significant first.
def fixedLE : (width value : Nat) → Bytes
  | 0, _ => []
  | width + 1, value => UInt8.ofNat value :: fixedLE width (value / 256)

-- The low `width` digits, most significant first.
def fixedBE (width value : Nat) : Bytes :=
  (fixedLE width value).reverse

-- The first `count` bytes and the bytes after them, if there are that many.
def split? (count : Nat) (bytes : Bytes) : Option (Bytes × Bytes) :=
  if bytes.length < count then none else some (bytes.take count, bytes.drop count)

theorem split?_eq_some_iff {count : Nat} {bytes first rest : Bytes} :
    split? count bytes = some (first, rest) ↔ bytes = first ++ rest ∧ first.length = count := by
  unfold split?
  split
  · rename_i hshort
    simp only [reduceCtorEq, false_iff]
    rintro ⟨rfl, hlength⟩
    simp only [List.length_append] at hshort
    omega
  · rename_i hlong
    simp only [Option.some.injEq, Prod.mk.injEq]
    constructor
    · rintro ⟨rfl, rfl⟩
      exact ⟨(List.take_append_drop count bytes).symm, by simp only [List.length_take]; omega⟩
    · rintro ⟨rfl, rfl⟩
      exact ⟨List.take_left, List.drop_left⟩

-- Replaces the bytes from `start` on by others.
def overwrite (bytes : Bytes) (start : Nat) (written : Bytes) : Bytes :=
  bytes.take start ++ written ++ bytes.drop (start + written.length)

-- Two lower case digits for each byte.
def toHex (bytes : Bytes) : String :=
  String.ofList (bytes.flatMap fun byte =>
    [Nat.digitChar (byte.toNat / 16), Nat.digitChar (byte.toNat % 16)])

end Bytes

end SigOps
