import SigOps.Ecdsa
import SigOps.Machine
import SigOps.PublicKey
import SigOps.Signature.Blob

namespace SigOps.Checksig

-- Whether the signature verifies. The digest is requested only when both operands can be read.
def verifySignature (source : DigestSource) (flags : Flags) (blob key : Bytes) :
    LogM (Outcome Bool) := do
  match ← ofExcept (Signature.parse flags blob) with
  | .invalid reason => return .invalid reason
  | .valid signature =>
      match PublicKey.decodeUnder flags key with
      | .error fault => return .invalid (.publicKey fault)
      | .ok publicKey =>
          let digest ← source.request signature.hashType [blob]
          return .valid (Ecdsa.verify publicKey digest signature.pair)

-- A signature that fails must be empty.
def checkNullFail (success : Bool) (blob : Bytes) : Except ScriptError Unit :=
  if success || blob.isEmpty then .ok () else .error .nullFail

-- An operand that can not be read fails the check, whatever its length.
def checkSignature (source : DigestSource) (flags : Flags) (blob key : Bytes) : LogM Bool := do
  ofExcept (PublicKey.checkEncoding flags key)
  match ← verifySignature source flags blob key with
  | .invalid _ => return false
  | .valid success =>
      ofExcept (flags.whenEnforced .nullFail (checkNullFail success blob))
      return success

-- The operands are a signature and, on top of it, a key.
def eval (source : DigestSource) (flags : Flags) : Eval Bool := do
  let key ← Machine.onStack Stack.pop
  let blob ← Machine.onStack Stack.pop
  Machine.onLog (checkSignature source flags blob key)

end SigOps.Checksig
