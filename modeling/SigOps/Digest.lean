import SigOps.HashType

namespace SigOps

-- The message hash that is signed.
abbrev Digest := Bytes

inductive DigestError where
  -- The transaction has no such input.
  | inputIndex
  -- A signature of this size fits no push.
  | pushSize (size : Nat)
deriving DecidableEq

namespace DigestError

def message : DigestError → String
  | .inputIndex => "failed to compute signature hash: invalid input index"
  | .pushSize size => "signature of " ++ toString size ++ " bytes can not be pushed onto a script"

end DigestError

structure DigestRequest where
  hashType : HashType
  -- All the signatures consumed by the opcode that asks.
  signatures : List Bytes
  answer : Except DigestError Digest

-- Oldest request first.
abbrev DigestLog := List DigestRequest

-- Opcodes ask a source for their digests. An answer may depend on the requests made before, so a
-- source with a state of its own is a function of the log.
abbrev DigestSource := DigestLog → HashType → List Bytes → Except DigestError Digest

namespace DigestSource

-- The same digest for every request.
def constant (digest : Digest) : DigestSource := fun _ _ _ => .ok digest

-- The hash type replaces the first byte. A request for a refused hash type fails.
def template (digest : Digest) (refused : List HashType) : DigestSource :=
  fun _ hashType signatures =>
    if hashType ∈ refused then .error (.pushSize signatures.length)
    else .ok (digest.set 0 hashType.byte)

-- Logs the request together with its answer.
def ask (source : DigestSource) (hashType : HashType) (signatures : List Bytes) :
    EStateM DigestError DigestLog Digest := fun log =>
  let answer := source log hashType signatures
  let extended := log ++ [⟨hashType, signatures, answer⟩]
  match answer with
  | .ok digest => .ok digest extended
  | .error fault => .error fault extended

end DigestSource

end SigOps
