import SigOps.Bytes

namespace SigOps

-- A count before a list or a byte string, in the fewest of 1, 3, 5 or 9 bytes.
def compactSize (value : Nat) : Bytes :=
  if value < 0xfd then Bytes.fixedLE 1 value
  else if value < 0x10000 then 0xfd :: Bytes.fixedLE 2 value
  else if value < 0x100000000 then 0xfe :: Bytes.fixedLE 4 value
  else 0xff :: Bytes.fixedLE 8 value

def countedBytes (bytes : Bytes) : Bytes := compactSize bytes.length ++ bytes

-- An output of an earlier transaction. Identifiers are kept in wire order.
structure OutPoint where
  txid : Bytes
  index : UInt32

structure TxIn where
  previous : OutPoint
  scriptSig : Bytes
  sequence : UInt32

structure TxOut where
  value : UInt64
  script : Bytes

structure Transaction where
  -- Versions are signed, which shows nowhere in their four bytes.
  version : UInt32
  inputs : List TxIn
  outputs : List TxOut
  lockTime : UInt32

def wordBytes (word : UInt32) : Bytes := Bytes.fixedLE 4 word.toNat

def amountBytes (amount : UInt64) : Bytes := Bytes.fixedLE 8 amount.toNat

namespace OutPoint

def toBytes (outPoint : OutPoint) : Bytes := outPoint.txid ++ wordBytes outPoint.index

end OutPoint

namespace TxIn

def toBytes (input : TxIn) : Bytes :=
  input.previous.toBytes ++ countedBytes input.scriptSig ++ wordBytes input.sequence

end TxIn

namespace TxOut

-- An output that is left open.
def blank : TxOut := ⟨0xffffffffffffffff, []⟩

def toBytes (output : TxOut) : Bytes := amountBytes output.value ++ countedBytes output.script

end TxOut

namespace Transaction

def toBytes (transaction : Transaction) : Bytes :=
  wordBytes transaction.version ++
    compactSize transaction.inputs.length ++ transaction.inputs.flatMap TxIn.toBytes ++
    compactSize transaction.outputs.length ++ transaction.outputs.flatMap TxOut.toBytes ++
    wordBytes transaction.lockTime

end Transaction

end SigOps
