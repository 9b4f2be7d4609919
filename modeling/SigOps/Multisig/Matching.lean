import SigOps.Ecdsa
import SigOps.Multisig.Cache
import SigOps.PublicKey
import SigOps.Signature.Blob

namespace SigOps.Multisig

-- The key of each signature, in signature order. The first signature without a key ends the list.
structure Matches where
  keys : List (Option Nat)
deriving DecidableEq

def increasing : List Nat → Bool
  | first :: second :: rest => first < second && increasing (second :: rest)
  | _ => true

-- Each of `count` signatures has a key, later signatures have later keys.
def Matches.isSatisfied (matched : Matches) (count : Nat) : Bool :=
  matched.keys.length == count && matched.keys.all Option.isSome &&
    increasing (matched.keys.filterMap id)

-- Whether a key that can be read is among the candidates.
def isCandidate (flags : Flags) (candidates : List PublicKey) (key : Bytes) : Bool :=
  match PublicKey.decodeUnder flags key with
  | .ok publicKey => candidates.contains publicKey
  | .error _ => false

-- The position of the first candidate, counted from `position` on, and the keys after it. The last
-- `reserved` keys are left to later signatures.
def findKey (flags : Flags) (candidates : List PublicKey) (reserved : Nat) :
    (position : Nat) → (keys : List Bytes) → Except ScriptError (Option (Nat × List Bytes))
  | _, [] => .ok none
  | position, key :: rest =>
      if rest.length < reserved then .ok none
      else do
        PublicKey.checkEncoding flags key
        if isCandidate flags candidates key then .ok (some (position, rest))
        else findKey flags candidates reserved (position + 1) rest

-- Matches the signatures with the keys, which are counted from `position` on. Each signature takes
-- the first key left that it verifies under, and the keys that it passes over are lost to the
-- signatures after it. Digests come from an action with a state of its own.
def matchFrom {σ : Type} (digestOf : HashType → EStateM ScriptError σ Digest) (flags : Flags) :
    (signatures : List Bytes) → (position : Nat) → (keys : List Bytes) →
      EStateM ScriptError σ (List (Option Nat))
  | [], _, _ => return []
  | blob :: later, position, keys =>
      if keys.length ≤ later.length then return []
      else do
        match ← ofExcept (Signature.parse flags blob) with
        | .invalid _ => return [none]
        | .valid signature =>
            let digest ← digestOf signature.hashType
            let candidates := Ecdsa.possibleKeys digest signature.pair
            match ← ofExcept (findKey flags candidates later.length position keys) with
            | none => return [none]
            | some (found, rest) =>
                let matched ← matchFrom digestOf flags later (found + 1) rest
                return some found :: matched

-- Both lists start with the operand that was on top.
def matchSignatures (source : DigestSource) (flags : Flags) (signatures keys : List Bytes) :
    LogM Matches := fun log =>
  match matchFrom (DigestCache.fetch source signatures) flags signatures 0 keys ⟨[], log⟩ with
  | .ok matched after => .ok ⟨matched⟩ after.log
  | .error fault after => .error fault after.log

end SigOps.Multisig
