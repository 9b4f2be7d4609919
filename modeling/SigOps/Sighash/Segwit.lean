import SigOps.Digest
import SigOps.Hash.Sha256
import SigOps.Transaction

namespace SigOps.Sighash.Segwit

-- Stands for a part that is left open.
def openHash : Bytes := List.replicate 32 0

def previousHash (commitment : Commitment) (transaction : Transaction) : Bytes :=
  if commitment.anyoneCanPay then openHash
  else Sha256.doubleHash (transaction.inputs.flatMap fun input => input.previous.toBytes)

def sequenceHash (commitment : Commitment) (transaction : Transaction) : Bytes :=
  if commitment.anyoneCanPay ∨ commitment.outputs ≠ .all then openHash
  else Sha256.doubleHash (transaction.inputs.flatMap fun input => wordBytes input.sequence)

def outputHash (commitment : Commitment) (index : Nat) (transaction : Transaction) : Bytes :=
  match commitment.outputs with
  | .all => Sha256.doubleHash (transaction.outputs.flatMap TxOut.toBytes)
  | .none => openHash
  | .single =>
      match transaction.outputs[index]? with
      | some output => Sha256.doubleHash output.toBytes
      | none => openHash

-- The parts of the transaction are hashed on their own, and the amount that the input spends is
-- committed to. An undefined hash type enters the hash as the defined one with the same commitment.
def digest (transaction : Transaction) (index : Nat) (scriptCode : Bytes) (amount : UInt64)
    (hashType : HashType) : Except DigestError Digest :=
  match transaction.inputs[index]? with
  | none => .error .inputIndex
  | some input =>
      let commitment := hashType.commitment
      .ok (Sha256.doubleHash (
        wordBytes transaction.version ++ previousHash commitment transaction ++
          sequenceHash commitment transaction ++ input.previous.toBytes ++
          countedBytes scriptCode ++ amountBytes amount ++ wordBytes input.sequence ++
          outputHash commitment index transaction ++ wordBytes transaction.lockTime ++
          Bytes.fixedLE 4 commitment.hashType.byte.toNat))

end SigOps.Sighash.Segwit
