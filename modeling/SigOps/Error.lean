import SigOps.Digest
import SigOps.Opcode
import SigOps.Signature.Encoding
import SigOps.Stack

namespace SigOps

def maxKeysPerMultisig : Nat := 20

def maxOpsPerScript : Nat := 201

-- The causes that abort a script. An encoding that no enforced rule forbids is not among them.
inductive ScriptError where
  | signatureEncoding (fault : EncodingFault)
  | highS
  | undefinedHashType
  | pubkeyType
  | witnessPubkeyType
  | nullFail
  | nullDummy (length : Nat)
  | keyCount (count : Int)
  | signatureCount (count : Int) (keys : Nat)
  | opCount
  | verify (opcode : Opcode)
  | unsupportedOpcode (opcode : Opcode)
  | stack (fault : StackError)
  | digest (fault : DigestError)
deriving DecidableEq

namespace ScriptError

def message : ScriptError → String
  | .signatureEncoding fault => "non-canonical DER signature: " ++ fault.message
  | .highS => "signature violates low-S requirement"
  | .undefinedHashType => "signature hash type is not defined"
  | .pubkeyType => "public key is neither compressed nor uncompressed"
  | .witnessPubkeyType => "public key in witness script is not compressed"
  | .nullFail => "signatures are not empty on failed checksig/checkmultisig operations"
  | .nullDummy length =>
      "multisig dummy argument has length " ++ toString length ++ " instead of 0"
  | .keyCount count =>
      "invalid number of pubkeys " ++ toString count ++ ", expected in the range of [0, " ++
        toString maxKeysPerMultisig ++ "]"
  | .signatureCount count keys =>
      "invalid number of signatures " ++ toString count ++ ", expected in the range of [0, " ++
        toString keys ++ "]"
  | .opCount => "exceeds max operations (" ++ toString maxOpsPerScript ++ ") per script"
  | .verify opcode => opcode.name ++ " failed"
  | .unsupportedOpcode opcode => opcode.name ++ " is not a signature checking opcode"
  | .stack fault => fault.message
  | .digest fault => fault.message

end ScriptError

end SigOps
