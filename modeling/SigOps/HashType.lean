import SigOps.Bytes

namespace SigOps

-- The byte that ends a signature blob. It selects the parts of the transaction which the signature
-- commits to. Any byte is a hash type, few are defined.
structure HashType where
  byte : UInt8
deriving DecidableEq

-- The outputs that a signature commits to: all, none, or the one beside its input.
inductive OutputScope where
  | all
  | none
  | single
deriving DecidableEq

structure Commitment where
  outputs : OutputScope
  -- The other inputs are left open.
  anyoneCanPay : Bool
deriving DecidableEq

namespace HashType

def all : HashType := ⟨0x01⟩

def none : HashType := ⟨0x02⟩

def single : HashType := ⟨0x03⟩

def anyoneCanPayBit : UInt8 := 0x80

def baseType (hashType : HashType) : UInt8 := hashType.byte &&& 0x7f

def anyoneCanPay (hashType : HashType) : Bool := hashType.byte &&& anyoneCanPayBit != 0

def isDefined (hashType : HashType) : Bool :=
  all.byte ≤ hashType.baseType && hashType.baseType ≤ single.byte

def ofSignature? (blob : Bytes) : Option HashType := blob.getLast?.map HashType.mk

def render (hashType : HashType) : String := "0x" ++ Bytes.toHex [hashType.byte]

-- Two bits of the byte are ignored. What is still undefined then commits to all outputs.
def commitment (hashType : HashType) : Commitment :=
  { outputs :=
      match hashType.byte &&& 0x1f with
      | 0x02 => .none
      | 0x03 => .single
      | _ => .all
    anyoneCanPay := hashType.anyoneCanPay }

end HashType

namespace Commitment

-- The defined hash type that stands for the commitment.
def hashType (commitment : Commitment) : HashType :=
  let base := match commitment.outputs with
    | .all => HashType.all
    | .none => HashType.none
    | .single => HashType.single
  if commitment.anyoneCanPay then ⟨base.byte ||| HashType.anyoneCanPayBit⟩ else base

end Commitment

end SigOps
