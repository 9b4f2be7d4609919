import SigOps.Sighash.Legacy
import SigOps.Sighash.Segwit

namespace SigOps

-- Which scheme the script being run is hashed under.
inductive SignatureVersion where
  | base
  | witnessV0
deriving DecidableEq

-- The input being spent and the script that is run for it.
structure Spending where
  transaction : Transaction
  inputIndex : Nat
  amount : UInt64
  scriptCode : Bytes
  version : SignatureVersion

namespace Spending

-- Only the base version removes the signatures from the script code.
def digest (spending : Spending) (hashType : HashType) (signatures : List Bytes) :
    Except DigestError Digest :=
  match spending.version with
  | .base => do
      let scriptCode ← Sighash.Legacy.removeSignatures signatures spending.scriptCode
      Sighash.Legacy.digest spending.transaction spending.inputIndex scriptCode hashType
  | .witnessV0 =>
      Sighash.Segwit.digest spending.transaction spending.inputIndex spending.scriptCode
        spending.amount hashType

-- The digests of one input of a transaction, as a source for the signature opcodes.
def source (spending : Spending) : DigestSource := fun _ => spending.digest

end Spending

end SigOps
