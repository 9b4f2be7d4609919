import SigOps.Curve.Secp256k1
import SigOps.Error
import SigOps.Flags

namespace SigOps

open Curve

structure PublicKey where
  x : Coordinate
  y : Coordinate
  onCurve : OnCurve x y
deriving DecidableEq

inductive PublicKeyError where
  | notStrict
  | malformed
deriving DecidableEq

namespace PublicKeyError

def message : PublicKeyError → String
  | .notStrict => "public key is not strictly encoded"
  | .malformed => "invalid public key: malformed public key"

end PublicKeyError

namespace PublicKey

def compressedSize : Nat := 33

def uncompressedSize : Nat := 65

def ofCoordinates? (x y : Coordinate) : Option PublicKey :=
  if honCurve : OnCurve x y then some ⟨x, y, honCurve⟩ else none

-- The point above `x` on the chosen side.
def ofX? (x : Coordinate) (odd : Bool) : Option PublicKey := do
  let root ← squareRoot? (cubic x)
  ofCoordinates? x (if isOdd root = odd then root else -root)

def isCompressed (bytes : Bytes) : Bool :=
  match bytes with
  | [] => false
  | marker :: _ => bytes.length == compressedSize && (marker == 0x02 || marker == 0x03)

def isUncompressed (bytes : Bytes) : Bool :=
  match bytes with
  | [] => false
  | marker :: _ => bytes.length == uncompressedSize && marker == 0x04

def isHybrid (bytes : Bytes) : Bool :=
  match bytes with
  | [] => false
  | marker :: _ => bytes.length == uncompressedSize && (marker == 0x06 || marker == 0x07)

-- The two forms that strict rules allow, whether or not they hold a point.
def isStrict (bytes : Bytes) : Bool := isCompressed bytes || isUncompressed bytes

-- A coordinate is written below the prime.
def readCoordinate? (bytes : Bytes) : Option Coordinate :=
  let value := bytes.toNatBE
  if hvalue : value < fieldPrime then some ⟨value, hvalue⟩ else none

def readPoint? (body : Bytes) : Option PublicKey := do
  let x ← readCoordinate? (body.take 32)
  let y ← readCoordinate? (body.drop 32)
  ofCoordinates? x y

-- Reads all three forms.
def ofBytes? (bytes : Bytes) : Option PublicKey :=
  match bytes with
  | [] => none
  | marker :: body =>
      if isCompressed bytes then do
        let x ← readCoordinate? body
        ofX? x (marker == 0x03)
      else if isUncompressed bytes then readPoint? body
      else if isHybrid bytes then do
        let key ← readPoint? body
        if isOdd key.y = (marker == 0x07) then some key else none
      else none

def decode (strict : Bool) (bytes : Bytes) : Except PublicKeyError PublicKey :=
  if strict && !isStrict bytes then .error .notStrict
  else
    match ofBytes? bytes with
    | some key => .ok key
    | none => .error .malformed

def compressed (key : PublicKey) : Bytes :=
  (if isOdd key.y then 0x03 else 0x02) :: Bytes.fixedBE 32 key.x.val

def uncompressed (key : PublicKey) : Bytes :=
  0x04 :: (Bytes.fixedBE 32 key.x.val ++ Bytes.fixedBE 32 key.y.val)

def checkStrict (bytes : Bytes) : Except ScriptError Unit :=
  if isStrict bytes then .ok () else .error .pubkeyType

def checkCompressed (bytes : Bytes) : Except ScriptError Unit :=
  if isCompressed bytes then .ok () else .error .witnessPubkeyType

def checkEncoding (flags : Flags) (bytes : Bytes) : Except ScriptError Unit := do
  flags.whenEnforced .strictEnc (checkStrict bytes)
  flags.whenEnforced .witnessPubkeyType (checkCompressed bytes)

-- Where keys must be strictly encoded the hybrid form is not read.
def decodeUnder (flags : Flags) (bytes : Bytes) : Except PublicKeyError PublicKey :=
  decode (flags.enforces .strictEnc) bytes

end PublicKey

end SigOps
