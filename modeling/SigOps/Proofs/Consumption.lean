import SigOps.Eval
import SigOps.Proofs.Basic

namespace SigOps

-- The machine with one more element on its stack.
def Machine.push (item : Bytes) (machine : Machine) : Machine :=
  { machine with stack := { machine.stack with items := item :: machine.stack.items } }

-- The second opcode makes the same check as the first and consumes its result.
inductive Opcode.Consumes : Opcode → Opcode → Prop where
  | one : Consumes .checkSig .checkSigVerify
  | many : Consumes .checkMultiSig .checkMultiSigVerify

-- What the second opcode does where the first does what it does. An abort before there is a result
-- is the same for both.
inductive Consumed (opcode : Opcode) :
    EStateM.Result ScriptError Machine Unit → EStateM.Result ScriptError Machine Unit → Prop where
  | aborted (fault : ScriptError) (after : Machine) :
      Consumed opcode (.error fault after) (.error fault after)
  | passed (after : Machine) : Consumed opcode (.ok () (after.push [1])) (.ok () after)
  | failed (after : Machine) :
      Consumed opcode (.ok () (after.push [])) (.error (.verify opcode) after)

section Checks

variable {opcode pushing consuming : Opcode}

theorem consumed_apply (opcode : Opcode) (check : Eval Bool) (machine : Machine) :
    Consumed opcode ((check >>= Report.push.apply) machine)
      ((check >>= (Report.verify opcode).apply) machine) := by
  cases hcheck : check machine with
  | error fault after =>
      rw [bind_of_error hcheck, bind_of_error hcheck]
      exact .aborted fault after
  | ok success after =>
      rw [bind_of_ok hcheck, bind_of_ok hcheck]
      cases success with
      | true => exact .passed after
      | false => exact .failed after

-- Pushing the result and settling it afterwards is what an opcode does with it at once.
theorem push_bind_settle (check : Eval Bool) (report : Report) :
    (do check >>= Report.push.apply; report.settle) = check >>= report.apply := by
  rw [bind_assoc]
  exact congrArg (check >>= ·) (funext report.pushBool_settle)

theorem Opcode.Consumes.exists_check (hconsumes : pushing.Consumes consuming)
    (source : DigestSource) (flags : Flags) :
    ∃ check : Eval Bool, evalOpcode source flags pushing = check >>= Report.push.apply ∧
      evalOpcode source flags consuming = check >>= (Report.verify consuming).apply := by
  cases hconsumes with
  | one => exact ⟨Checksig.eval source flags, evalCheckSig_eq .., evalCheckSig_eq ..⟩
  | many => exact ⟨Multisig.eval source flags, rfl, rfl⟩

variable {first second : EStateM.Result ScriptError Machine Unit}

theorem Consumed.opCount_eq (hconsumed : Consumed opcode first second) :
    (finalState second).opCount = (finalState first).opCount := by
  cases hconsumed with
  | aborted | passed | failed => rfl

theorem Consumed.log_eq (hconsumed : Consumed opcode first second) :
    (finalState second).log = (finalState first).log := by
  cases hconsumed with
  | aborted | passed | failed => rfl

-- An opcode that consumes its result is the one that pushes it with the top of the stack read and
-- taken off afterwards. It counts the same operations and makes the same requests.
theorem evalOpcode_consumes (hconsumes : pushing.Consumes consuming) (source : DigestSource)
    (flags : Flags) :
    evalOpcode source flags consuming =
      (do evalOpcode source flags pushing; (Report.verify consuming).settle) ∧
    ∀ machine, Consumed consuming (evalOpcode source flags pushing machine)
        (evalOpcode source flags consuming machine) ∧
      (finalState (evalOpcode source flags consuming machine)).opCount =
        (finalState (evalOpcode source flags pushing machine)).opCount ∧
      (finalState (evalOpcode source flags consuming machine)).log =
        (finalState (evalOpcode source flags pushing machine)).log := by
  obtain ⟨check, hpushing, hconsuming⟩ := hconsumes.exists_check source flags
  rw [hpushing, hconsuming]
  refine ⟨(push_bind_settle check (.verify consuming)).symm, fun machine => ?_⟩
  have hconsumed := consumed_apply consuming check machine
  exact ⟨hconsumed, hconsumed.opCount_eq, hconsumed.log_eq⟩

-- A signature that verifies passes both opcodes of its kind. An empty one makes one opcode push an
-- empty element and the other one abort, and the element below the operands stays where it is.
theorem evalOpcode_consumes_generator :
    (∃ after, evalOpcode (.constant zeroDigest) Flags.none .checkSig
        ⟨⟨[generatorKey, generatorSignature, [5]], true⟩, 0, []⟩ = .ok () (after.push [1]) ∧
      evalOpcode (.constant zeroDigest) Flags.none .checkSigVerify
        ⟨⟨[generatorKey, generatorSignature, [5]], true⟩, 0, []⟩ = .ok () after) ∧
    ∃ after, evalOpcode (.constant zeroDigest) Flags.none .checkMultiSig
        ⟨⟨[[1], generatorKey, [1], [], [], [5]], true⟩, 0, []⟩ = .ok () (after.push []) ∧
      evalOpcode (.constant zeroDigest) Flags.none .checkMultiSigVerify
        ⟨⟨[[1], generatorKey, [1], [], [], [5]], true⟩, 0, []⟩ =
          .error (.verify .checkMultiSigVerify) after ∧
      after.stack.items = [[5]] := by
  constructor
  · obtain ⟨-, hone⟩ := evalOpcode_consumes .one (.constant zeroDigest) Flags.none
    obtain ⟨hconsumed, -⟩ := hone ⟨⟨[generatorKey, generatorSignature, [5]], true⟩, 0, []⟩
    have hverdict : verdict (evalOpcode (.constant zeroDigest) Flags.none .checkSigVerify
        ⟨⟨[generatorKey, generatorSignature, [5]], true⟩, 0, []⟩) = .ok () := by
      decide +kernel
    generalize evalOpcode (.constant zeroDigest) Flags.none .checkSig _ = first at hconsumed ⊢
    generalize evalOpcode (.constant zeroDigest) Flags.none .checkSigVerify _ = second
      at hconsumed hverdict ⊢
    cases hconsumed with
    | aborted | failed => cases hverdict
    | passed after => exact ⟨after, rfl, rfl⟩
  · obtain ⟨-, hmany⟩ := evalOpcode_consumes .many (.constant zeroDigest) Flags.none
    obtain ⟨hconsumed, -⟩ := hmany ⟨⟨[[1], generatorKey, [1], [], [], [5]], true⟩, 0, []⟩
    have hpushed : verdict (evalOpcode (.constant zeroDigest) Flags.none .checkMultiSig
        ⟨⟨[[1], generatorKey, [1], [], [], [5]], true⟩, 0, []⟩) = .ok () := by
      decide +kernel
    have hverdict : verdict (evalOpcode (.constant zeroDigest) Flags.none .checkMultiSigVerify
        ⟨⟨[[1], generatorKey, [1], [], [], [5]], true⟩, 0, []⟩) =
          .error (.verify .checkMultiSigVerify) := by
      decide +kernel
    have hitems : (finalState (evalOpcode (.constant zeroDigest) Flags.none .checkMultiSigVerify
        ⟨⟨[[1], generatorKey, [1], [], [], [5]], true⟩, 0, []⟩)).stack.items = [[5]] := by
      decide +kernel
    generalize evalOpcode (.constant zeroDigest) Flags.none .checkMultiSig _ = first
      at hconsumed hpushed ⊢
    generalize evalOpcode (.constant zeroDigest) Flags.none .checkMultiSigVerify _ = second
      at hconsumed hverdict hitems ⊢
    cases hconsumed with
    | aborted => cases hpushed
    | passed => cases hverdict
    | failed after => exact ⟨after, rfl, rfl, hitems⟩

end Checks

end SigOps
