import SigOps.Curve.Jacobian
import SigOps.Digest
import SigOps.PublicKey
import SigOps.Signature.Pair

namespace SigOps

open Curve

namespace Ecdsa

-- Hashes are reduced modulo the group order.
def digestScalar (digest : Digest) : Scalar := Fin.ofNat groupOrder digest.toNatBE

def combine (first : Scalar) (second : Scalar) (point : Jacobian) : Jacobian :=
  (Jacobian.generator.multiple first).add (point.multiple second)

def keyPoint (key : PublicKey) : Jacobian := Jacobian.ofAffine key.x key.y

-- The x coordinate of (z / s) G + (r / s) Q is r, both modulo the group order. High S is refused,
-- whether or not the equation holds.
def verifyLow (key : PublicKey) (digest : Digest) (pair : Pair) : Bool :=
  if pair.isHighS then false
  else if pair.r = 0 ∨ pair.s = 0 then false
  else
    let scale := inverse pair.s
    let nonce := combine (digestScalar digest * scale) (pair.r * scale) (keyPoint key)
    match nonce.toAffine? with
    | none => false
    | some (x, _) => x.val % groupOrder = pair.r.val

-- The pair is normalized first, so that high S is as good as low S.
def verify (key : PublicKey) (digest : Digest) (pair : Pair) : Bool :=
  verifyLow key digest pair.normalize

-- The nonce point is fixed up to two choices: whether its x coordinate was reduced to give r, and
-- the parity of its y coordinate.
structure NonceChoice where
  reduced : Bool
  odd : Bool

def nonceChoices : List NonceChoice :=
  [⟨false, false⟩, ⟨false, true⟩, ⟨true, false⟩, ⟨true, true⟩]

def nonceX? (r : Scalar) (reduced : Bool) : Option Coordinate :=
  let value := if reduced then r.val + groupOrder else r.val
  if hvalue : value < fieldPrime then some ⟨value, hvalue⟩ else none

-- The key (s / r) R - (z / r) G for the chosen nonce point R.
def recoverFrom? (digest : Digest) (pair : Pair) (choice : NonceChoice) : Option PublicKey := do
  if pair.r = 0 ∨ pair.s = 0 then none
  else
    let x ← nonceX? pair.r choice.reduced
    let nonce ← PublicKey.ofX? x choice.odd
    let scale := inverse pair.r
    let (keyX, keyY) ←
      (combine (-(digestScalar digest * scale)) (pair.s * scale) (keyPoint nonce)).toAffine?
    PublicKey.ofCoordinates? keyX keyY

-- The normalized pair goes through its compact form, which is read again with each choice.
def recover? (digest : Digest) (pair : Pair) (choice : NonceChoice) : Option PublicKey := do
  recoverFrom? digest (← Pair.ofCompact? pair.normalize.toCompact) choice

-- At most four keys, each once.
def possibleKeys (digest : Digest) (pair : Pair) : List PublicKey :=
  (nonceChoices.filterMap (recover? digest pair)).eraseDups

end Ecdsa

end SigOps
