import SigOps.Error
import SigOps.Flags
import SigOps.PublicKey
import SigOps.Signature.Der

namespace SigOps

-- Why a check fails without aborting the script.
inductive Unusable where
  | emptySignature
  | der (fault : DerError)
  | publicKey (fault : PublicKeyError)
deriving DecidableEq

namespace Unusable

def message : Unusable → String
  | .emptySignature => "empty signature"
  | .der fault => fault.message
  | .publicKey fault => fault.message

end Unusable

inductive Outcome (α : Type) where
  | valid (value : α)
  | invalid (reason : Unusable)
deriving DecidableEq

structure Signature where
  pair : Pair
  hashType : HashType
deriving DecidableEq

namespace Signature

def checkEncoding (flags : Flags) (blob : Bytes) : Except ScriptError Unit :=
  if flags.requiresDer then (Encoding.check blob).mapError .signatureEncoding else .ok ()

-- An empty blob has no hash type, let alone a defined one.
def checkHashType (blob : Bytes) : Except ScriptError Unit :=
  match HashType.ofSignature? blob with
  | some hashType => if hashType.isDefined then .ok () else .error .undefinedHashType
  | none => .error .undefinedHashType

def checkLowS (pair : Pair) : Except ScriptError Unit :=
  if pair.isLowS then .ok () else .error .highS

-- A blob that breaks an enforced rule aborts the script. One that only makes no sense fails its
-- check. The pair is read permissively even where the encoding was checked strictly before.
def parse (flags : Flags) (blob : Bytes) : Except ScriptError (Outcome Signature) :=
  match HashType.ofSignature? blob with
  | none => .ok (.invalid .emptySignature)
  | some hashType => do
      checkEncoding flags blob
      flags.whenEnforced .strictEnc (checkHashType blob)
      match Der.decode .lax blob.dropLast with
      | .error fault => .ok (.invalid (.der fault))
      | .ok pair => do
          flags.whenEnforced .lowS (checkLowS pair)
          .ok (.valid ⟨pair, hashType⟩)

end Signature

end SigOps
