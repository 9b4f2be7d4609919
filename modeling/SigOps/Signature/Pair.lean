import SigOps.Bytes
import SigOps.Curve.Secp256k1

namespace SigOps

open Curve

inductive DerError where
  | malformed
  | integerTooLarge
deriving DecidableEq

namespace DerError

def message : DerError → String
  | .malformed => "malformed DER signature: malformed signature"
  | .integerTooLarge => "integer does not fit in 32 bytes"

end DerError

-- The pair of integers that an ECDSA signature consists of. Both are residues modulo the group
-- order, so zero is a possible value.
structure Pair where
  r : Scalar
  s : Scalar
deriving DecidableEq

namespace Pair

-- The pair that verifies under no key.
def zero : Pair := ⟨0, 0⟩

def ofNats? (r s : Nat) : Option Pair :=
  if hrange : r < groupOrder ∧ s < groupOrder then some ⟨⟨r, hrange.1⟩, ⟨s, hrange.2⟩⟩ else none

-- Each integer takes this many bytes of the compact form.
def integerSize : Nat := 32

def compactSize : Nat := 64

-- The compact form. Each integer is at the end of its half.
def toCompact (pair : Pair) : Bytes :=
  Bytes.fixedBE integerSize pair.r.val ++ Bytes.fixedBE integerSize pair.s.val

def ofCompact? (compact : Bytes) : Option Pair :=
  if compact.length = compactSize then
    ofNats? (Bytes.toNatBE (compact.take integerSize)) (Bytes.toNatBE (compact.drop integerSize))
  else none

-- The integers, read from the compact form.
def readR (pair : Pair) : Nat := Bytes.toNatBE (pair.toCompact.take integerSize)

def readS (pair : Pair) : Nat := Bytes.toNatBE (pair.toCompact.drop integerSize)

-- The shortest spelling, in which zero takes a byte as well.
def integerBytes (integer : Nat) : Bytes :=
  if integer = 0 then [0] else Bytes.ofNatBE integer

-- Writes an integer to the end of the half that starts at `offset`.
def writeInteger (offset integer : Nat) (compact : Bytes) : Except DerError Bytes :=
  let bytes := integerBytes integer
  if integerSize < bytes.length then .error .integerTooLarge
  else .ok (compact.overwrite (offset + integerSize - bytes.length) bytes)

-- Both integers have to fit in their half before they are compared with the group order.
def ofIntegers (r s : Nat) : Except DerError Pair := do
  let withR ← writeInteger 0 r (List.replicate compactSize 0)
  let compact ← writeInteger integerSize s withR
  match ofCompact? compact with
  | some pair => .ok pair
  | none => .error .malformed

def halfOrder : Nat := groupOrder / 2

def isLowS (pair : Pair) : Bool := pair.readS ≤ halfOrder

-- The largest S that the curve library takes for low.
def greatestLowS : Nat := 0x7fffffffffffffffffffffffffffffff5d576e7357a4501ddfe92f46681b20a0

def isHighS (pair : Pair) : Bool := greatestLowS < pair.s.val

-- Negating S keeps the signature valid, one of the two choices is low.
def normalize (pair : Pair) : Pair :=
  if pair.isHighS then { pair with s := -pair.s } else pair

end Pair

end SigOps
