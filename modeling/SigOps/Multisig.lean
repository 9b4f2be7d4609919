import SigOps.Multisig.Matching

namespace SigOps.Multisig

def checkNullDummy (dummy : Bytes) : Except ScriptError Unit :=
  if dummy.isEmpty then .ok () else .error (.nullDummy dummy.length)

-- When the check fails all signatures must be empty.
def checkNullFail (success : Bool) (signatures : List Bytes) : Except ScriptError Unit :=
  if success || signatures.all List.isEmpty then .ok () else .error .nullFail

def checkCount (value : Int) (limit : Nat) (fault : ScriptError) : Except ScriptError Nat :=
  if 0 ≤ value ∧ value ≤ limit then .ok value.toNat else .error fault

-- From the bottom of the stack, the operands are an extra element, the signatures, their number,
-- the keys and their number.
structure Operands where
  signatures : List Bytes
  keys : List Bytes
  dummy : Bytes
deriving DecidableEq

-- Takes an operand that numbers other operands. It is at most `limit`.
def popCount (limit : Nat) (outOfRange : Int → ScriptError) : Eval Nat := do
  let value ← Machine.onStack Stack.popNum
  ofExcept (checkCount value limit (outOfRange value))

-- Each key counts as an operation, before the limit is checked and whatever happens after.
def popKeys : Eval (List Bytes) := do
  let keyCount ← popCount maxKeysPerMultisig .keyCount
  Machine.addOps keyCount
  if maxOpsPerScript < (← get).opCount.toNat then throw .opCount
  else Machine.onStack (Stack.popMany keyCount)

def popSignatures (keyCount : Nat) : Eval (List Bytes) := do
  let signatureCount ← popCount keyCount (.signatureCount · keyCount)
  Machine.onStack (Stack.popMany signatureCount)

-- One element more than the layout needs is taken.
def popOperands : Eval Operands := do
  let keys ← popKeys
  let signatures ← popSignatures keys.length
  let dummy ← Machine.onStack Stack.pop
  return { signatures, keys, dummy }

-- The part of the check that follows the matching.
def conclude (flags : Flags) (signatures : List Bytes) (matched : Matches) : LogM Bool := do
  let success := matched.isSatisfied signatures.length
  ofExcept (flags.whenEnforced .nullFail (checkNullFail success signatures))
  return success

def checkOperands (source : DigestSource) (flags : Flags) (operands : Operands) : LogM Bool := do
  ofExcept (flags.whenEnforced .nullDummy (checkNullDummy operands.dummy))
  let matched ← matchSignatures source flags operands.signatures operands.keys
  conclude flags operands.signatures matched

def eval (source : DigestSource) (flags : Flags) : Eval Bool := do
  let operands ← popOperands
  Machine.onLog (checkOperands source flags operands)

end SigOps.Multisig
