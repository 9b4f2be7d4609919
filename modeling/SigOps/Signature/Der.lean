import SigOps.Signature.Pair

namespace SigOps.Der

def sequenceTag : UInt8 := 0x30

def integerTag : UInt8 := 0x02

-- The content of a non-negative integer. A zero byte keeps the top bit clear, zero is that byte.
def content (value : Nat) : Bytes :=
  match Bytes.ofNatBE value with
  | [] => [0]
  | first :: rest => if first &&& 0x80 = 0 then first :: rest else 0 :: first :: rest

-- Lengths below 128, which are their own encoding.
def element (tag : UInt8) (body : Bytes) : Bytes :=
  tag :: UInt8.ofNat body.length :: body

def ofPair (pair : Pair) : Bytes :=
  element sequenceTag
    (element integerTag (content pair.r.val) ++ element integerTag (content pair.s.val))

-- The permissive reader. It accepts padded integers, any form of length and trailing bytes, and it
-- does not compare the length of the sequence with anything. Signatures in the chain depend on it.
namespace Lax

-- The bytes after a length. A long length is skipped by its number of digits, unread.
def skipLength? : Bytes → Option Bytes
  | [] => none
  | first :: rest =>
      if first &&& 0x80 = 0 then some rest
      else (Bytes.split? (first.toNat - 0x80) rest).map Prod.snd

-- A length and the bytes after it. Leading zero digits do not count towards the limit of seven.
def readLength? : Bytes → Option (Nat × Bytes)
  | [] => none
  | first :: rest =>
      if first &&& 0x80 = 0 then some (first.toNat, rest)
      else do
        let (digits, body) ← Bytes.split? (first.toNat - 0x80) rest
        let significant := digits.dropWhile (· == 0)
        if 8 ≤ significant.length then none else some (Bytes.toNatBE significant, body)

-- The content of an integer and the bytes after it.
def readInteger? : Bytes → Option (Bytes × Bytes)
  | [] => none
  | tag :: rest =>
      if tag = integerTag then do
        let (length, body) ← readLength? rest
        body.split? length
      else none

-- The contents of R and S.
def readIntegers? : Bytes → Option (Bytes × Bytes)
  | [] => none
  | tag :: rest =>
      if tag = sequenceTag then do
        let body ← skipLength? rest
        let (r, afterR) ← readInteger? body
        let (s, _) ← readInteger? afterR
        some (r, s)
      else none

-- A pair with an integer out of range is replaced as a whole by one that never verifies.
def pairOf (r s : Nat) : Pair := (Pair.ofNats? r s).getD .zero

def decode? (bytes : Bytes) : Option Pair := do
  let (r, s) ← readIntegers? bytes
  some (pairOf r.toNatBE s.toNatBE)

end Lax

-- The strict reader. Every length is minimal and covers exactly what it announces, and integers
-- carry no excess padding of either sign.
namespace Strict

-- A length of several digits, without a leading zero and for 128 or more.
def readLongLength? (count : Nat) (bytes : Bytes) : Option (Nat × Bytes) := do
  let (digits, body) ← bytes.split? count
  let length := digits.toNatBE
  if 8 < count ∨ digits.head? = some 0 ∨ length < 128 ∨ body.length < length then none
  else some (length, body)

-- A length and the bytes after it.
def readLength? : Bytes → Option (Nat × Bytes)
  | [] => none
  | first :: rest =>
      if first &&& 0x80 = 0 then some (first.toNat, rest)
      else if first = 0x80 ∨ first = 0xff then none
      else readLongLength? (first.toNat - 0x80) rest

-- The first byte only repeats the sign of the second.
def isPadded : Bytes → Bool
  | first :: second :: _ =>
      (first == 0x00 && second &&& 0x80 == 0) || (first == 0xff && second &&& 0x80 != 0)
  | _ => false

-- The content of an integer and the bytes after it.
def readInteger? : Bytes → Option (Bytes × Bytes)
  | [] => none
  | tag :: rest =>
      if tag = integerTag then do
        let (length, body) ← readLength? rest
        let (digits, after) ← body.split? length
        if digits.isEmpty || isPadded digits then none else some (digits, after)
      else none

-- The contents of R and S, which fill the sequence as the sequence fills the bytes.
def readIntegers? : Bytes → Option (Bytes × Bytes)
  | [] => none
  | tag :: rest =>
      if tag = sequenceTag then do
        let (length, body) ← readLength? rest
        if length = body.length then do
          let (r, afterR) ← readInteger? body
          let (s, afterS) ← readInteger? afterR
          if afterS.isEmpty then some (r, s) else none
        else none
      else none

def isNegative (digits : Bytes) : Bool :=
  match digits with
  | [] => false
  | first :: _ => first &&& 0x80 != 0

-- An integer out of range becomes zero, without touching the other one.
def scalarOf (digits : Bytes) : Curve.Scalar :=
  if hrange : isNegative digits = false ∧ digits.toNatBE < Curve.groupOrder then
    ⟨digits.toNatBE, hrange.2⟩
  else 0

def decode? (bytes : Bytes) : Option Pair := do
  let (r, s) ← readIntegers? bytes
  some ⟨scalarOf r, scalarOf s⟩

end Strict

inductive Mode where
  | strict
  | lax
deriving DecidableEq

def decode? (mode : Mode) (bytes : Bytes) : Option Pair :=
  match mode with
  | .strict => Strict.decode? bytes
  | .lax => Lax.decode? bytes

-- Bytes without the hash type that follows them in a blob.
def decode (mode : Mode) (bytes : Bytes) : Except DerError Pair :=
  match decode? mode bytes with
  | some pair => .ok pair
  | none => .error .malformed

end SigOps.Der
