import SigOps.Signature.Der

namespace SigOps

inductive EncodingFault where
  | tooShort
  | tooLong
  | sequenceId
  | dataLength
  | lengthR
  | lengthRS
  | integerIdR
  | zeroLengthR
  | negativeR
  | paddingR
  | integerIdS
  | zeroLengthS
  | negativeS
  | paddingS
deriving DecidableEq

namespace EncodingFault

def message : EncodingFault → String
  | .tooShort => "DER encoded signature is too short"
  | .tooLong => "DER encoded signature is too long"
  | .sequenceId => "signature does not have the expected ASN.1 sequence ID"
  | .dataLength => "signature length does not cover the entire signature"
  | .lengthR => "R length exceeds signature size"
  | .lengthRS => "R and S lengths do not match the signature size"
  | .integerIdR => "R integer marker"
  | .zeroLengthR => "R length is zero"
  | .negativeR => "R is negative"
  | .paddingR => "R value has too much padding"
  | .integerIdS => "S integer marker"
  | .zeroLengthS => "S length is zero"
  | .negativeS => "S is negative"
  | .paddingS => "S value has too much padding"

end EncodingFault

namespace Encoding

def minSize : Nat := 9

def maxSize : Nat := 73

-- A top bit that is set would make the integer negative.
def topBit (byte : UInt8) : Bool := byte &&& 0x80 != 0

-- Checks the integer whose content is the `length` bytes from `start` on. A first byte of zero is
-- allowed only where it keeps the top bit clear.
def checkInteger (blob : Bytes) (start length : Nat) (hbound : start + length < blob.length)
    (zeroLength negative padding : EncodingFault) : Except EncodingFault Unit :=
  if length = 0 then .error zeroLength
  else if topBit blob[start] then .error negative
  else if hlong : 1 < length then
    if blob[start] = 0 ∧ topBit blob[start + 1] = false then .error padding else .ok ()
  else .ok ()

-- Layout: sequence tag, length, integer tag, length of R, R, integer tag, length of S, S, hash
-- type. The lengths are checked before the contents, and each read of the blob comes with its
-- bound.
def check (blob : Bytes) : Except EncodingFault Unit :=
  if hmin : blob.length < minSize then .error .tooShort
  else
    have hsize : 9 ≤ blob.length := Nat.not_lt.mp hmin
    if maxSize < blob.length then .error .tooLong
    else if blob[0] ≠ Der.sequenceTag then .error .sequenceId
    else if blob[1].toNat ≠ blob.length - 3 then .error .dataLength
    else
      let sizeR := blob[3].toNat
      if hr : blob.length ≤ 5 + sizeR then .error .lengthR
      else
        let sizeS := blob[5 + sizeR].toNat
        if hs : sizeR + sizeS + 7 ≠ blob.length then .error .lengthRS
        else if blob[2] ≠ Der.integerTag then .error .integerIdR
        else do
          checkInteger blob 4 sizeR (by omega) .zeroLengthR .negativeR .paddingR
          if blob[4 + sizeR] ≠ Der.integerTag then .error .integerIdS
          else
            checkInteger blob (6 + sizeR) sizeS (by omega) .zeroLengthS .negativeS .paddingS

end Encoding

end SigOps
