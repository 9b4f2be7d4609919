import SigOps.Digest
import SigOps.Hash.Sha256
import SigOps.Script.Deletion
import SigOps.Transaction

namespace SigOps.Sighash.Legacy

-- A signature can not commit to itself, so its push is removed from the script code.
def removeSignature (scriptCode signature : Bytes) : Except DigestError Bytes :=
  match Script.push? signature with
  | none => .error (.pushSize signature.length)
  | some pattern => .ok (Script.delete pattern scriptCode).script

def removeSignatures (signatures : List Bytes) (scriptCode : Bytes) : Except DigestError Bytes :=
  signatures.foldlM removeSignature scriptCode

-- The input that is signed for carries the script code.
def ownInput (scriptCode : Bytes) (input : TxIn) : TxIn := { input with scriptSig := scriptCode }

-- Other inputs carry no script. With the outputs open, their sequence is open as well.
def otherInput (outputs : OutputScope) (input : TxIn) : TxIn :=
  { input with
    scriptSig := []
    sequence := if outputs = .all then input.sequence else 0 }

def committedInputs (commitment : Commitment) (index : Nat) (scriptCode : Bytes)
    (inputs : List TxIn) : List TxIn :=
  if commitment.anyoneCanPay then inputs[index]?.toList.map (ownInput scriptCode)
  else inputs.mapIdx fun position input =>
    if position = index then ownInput scriptCode input else otherInput commitment.outputs input

def committedOutputs (outputs : OutputScope) (index : Nat) (all : List TxOut) : List TxOut :=
  match outputs with
  | .all => all
  | .none => []
  | .single => (all.take index).map (fun _ => TxOut.blank) ++ all[index]?.toList

-- Hashed in place of a commitment to one output when there is none beside the input.
def missingOutput : Digest := 1 :: List.replicate 31 0

-- The transaction with the uncommitted parts blanked and the script code in place of the input's
-- script, followed by the hash type. Undefined hash types commit to something too, and enter the
-- hash as they are.
def digest (transaction : Transaction) (index : Nat) (scriptCode : Bytes) (hashType : HashType) :
    Except DigestError Digest :=
  let commitment := hashType.commitment
  if transaction.inputs.length ≤ index then .error .inputIndex
  else if commitment.outputs = .single ∧ transaction.outputs.length ≤ index then .ok missingOutput
  else
    let committed := { transaction with
      inputs := committedInputs commitment index scriptCode transaction.inputs
      outputs := committedOutputs commitment.outputs index transaction.outputs }
    .ok (Sha256.doubleHash (committed.toBytes ++ Bytes.fixedLE 4 hashType.byte.toNat))

end SigOps.Sighash.Legacy
