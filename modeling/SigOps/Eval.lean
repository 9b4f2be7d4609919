import SigOps.Checksig
import SigOps.Multisig

namespace SigOps

-- What becomes of the result of a check.
inductive Report where
  | push
  | verify (opcode : Opcode)
deriving DecidableEq

namespace Report

def apply (report : Report) (success : Bool) : Eval Unit :=
  match report with
  | .push => Machine.onStack (Stack.pushBool success)
  | .verify opcode => if success then pure () else throw (.verify opcode)

-- The same for a result that is on the stack already. It stays there, or is taken off and read.
def settle (report : Report) : Eval Unit :=
  match report with
  | .push => pure ()
  | .verify opcode => do
      if ← Machine.onStack Stack.popBool then pure () else throw (.verify opcode)

-- The element that was pushed reads back as the result.
theorem pushBool_settle (report : Report) (success : Bool) :
    (do Machine.onStack (Stack.pushBool success); report.settle) = report.apply success := by
  funext machine
  cases report with
  | push => rfl
  | verify opcode => cases success <;> rfl

end Report

-- The result goes through the stack even where it is to be consumed.
def evalCheckSig (source : DigestSource) (flags : Flags) (report : Report) : Eval Unit := do
  let success ← Checksig.eval source flags
  Machine.onStack (Stack.pushBool success)
  report.settle

theorem evalCheckSig_eq (source : DigestSource) (flags : Flags) (report : Report) :
    evalCheckSig source flags report = Checksig.eval source flags >>= report.apply := by
  simp only [evalCheckSig, Report.pushBool_settle]

def evalCheckMultiSig (source : DigestSource) (flags : Flags) (report : Report) : Eval Unit := do
  report.apply (← Multisig.eval source flags)

-- Two of the opcodes leave the result of their check on the stack, the other two abort the script
-- when it is false.
def evalOpcode (source : DigestSource) (flags : Flags) (opcode : Opcode) : Eval Unit :=
  if opcode = .checkSig then evalCheckSig source flags .push
  else if opcode = .checkSigVerify then evalCheckSig source flags (.verify .checkSigVerify)
  else if opcode = .checkMultiSig then evalCheckMultiSig source flags .push
  else if opcode = .checkMultiSigVerify then
    evalCheckMultiSig source flags (.verify .checkMultiSigVerify)
  else throw (.unsupportedOpcode opcode)

end SigOps
