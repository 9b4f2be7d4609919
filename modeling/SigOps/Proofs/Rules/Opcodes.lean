import SigOps.Eval
import SigOps.Proofs.Multisig.Lockstep
import SigOps.Proofs.ScriptNum

namespace SigOps

variable {α : Type} {strict lenient : Bool} {fewer more : Flags}

namespace Stack

-- The same stack with numbers read as `minimal` says.
def relax (minimal : Bool) (stack : Stack) : Stack := { stack with requireMinimal := minimal }

def Relaxed (strict lenient : Bool) (left right : Stack) : Prop :=
  left.requireMinimal = strict ∧ right = left.relax lenient

-- What the stricter of two stacks may complain about.
def Spelling (strict lenient : Bool) (fault : StackError) : Prop :=
  strict ≠ lenient ∧ fault = .number .notMinimal

theorem pop_lockstep : Lockstep (Relaxed strict lenient) (Spelling strict lenient) pop pop := by
  rintro ⟨items, _⟩ _ ⟨rfl, rfl⟩
  cases items with
  | nil => exact .error _ ⟨rfl, rfl⟩
  | cons item rest => exact .ok _ ⟨rfl, rfl⟩

theorem popMany_lockstep (count : Nat) :
    Lockstep (Relaxed strict lenient) (Spelling strict lenient) (popMany count)
      (popMany count) := by
  induction count with
  | zero => exact .pure _
  | succ count ih => exact pop_lockstep.bind fun item => ih.bind fun rest => .pure _

theorem push_lockstep (item : Bytes) :
    Lockstep (Relaxed strict lenient) (Spelling strict lenient) (push item) (push item) := by
  rintro stack _ ⟨rfl, rfl⟩
  exact .ok _ ⟨rfl, rfl⟩

theorem decode_tightens (hminimal : lenient = true → strict = true) (item : Bytes) :
    Tightens (fun fault => strict ≠ lenient ∧ fault = .notMinimal) (ScriptNum.decode strict item)
      (ScriptNum.decode lenient item) := by
  by_cases hsame : strict = lenient
  · rw [hsame]
    exact .inl rfl
  · obtain ⟨rfl, rfl⟩ : strict = true ∧ lenient = false := by grind
    simp only [ScriptNum.decode_eq, Bool.true_and, Bool.false_and, Bool.false_eq_true, if_false]
    split
    · exact .inl rfl
    · split
      · exact .inr ⟨_, rfl, hsame, rfl⟩
      · exact .inl rfl

theorem popNum_lockstep (hminimal : lenient = true → strict = true) :
    Lockstep (Relaxed strict lenient) (Spelling strict lenient) popNum popNum := by
  apply pop_lockstep.bind
  intro item
  apply Lockstep.read
  rintro stack _ ⟨rfl, rfl⟩
  rcases decode_tightens hminimal item with hsame | ⟨fault, hfault, hne, rfl⟩
  · simp only [relax, hsame]
    split
    · exact .pure _
    · exact .throw _
  · simp only [hfault]
    exact fun left right _ => .excused ⟨hne, rfl⟩ left _

end Stack

namespace Machine

def relax (minimal : Bool) (machine : Machine) : Machine :=
  { machine with stack := machine.stack.relax minimal }

@[simp] theorem relax_opCount (minimal : Bool) (machine : Machine) :
    (machine.relax minimal).opCount = machine.opCount := rfl

def Relaxed (strict lenient : Bool) (left right : Machine) : Prop :=
  left.stack.requireMinimal = strict ∧ right = left.relax lenient

end Machine

-- The errors that a run may meet under more rules and a stricter stack only.
def Excused (fewer more : Flags) (strict lenient : Bool) (fault : ScriptError) : Prop :=
  Added fewer more fault ∨ strict ≠ lenient ∧ fault = .stack (.number .notMinimal)

namespace Machine

theorem onStack_lockstep {action : StackM α}
    (haction : Lockstep (Stack.Relaxed strict lenient) (Stack.Spelling strict lenient)
      action action) :
    Lockstep (Relaxed strict lenient) (Excused fewer more strict lenient) (onStack action)
      (onStack action) := by
  rintro machine _ ⟨rfl, rfl⟩
  have hagree := haction machine.stack _ ⟨rfl, rfl⟩
  simp only [onStack, relax]
  generalize action machine.stack = first at hagree
  generalize action (machine.stack.relax lenient) = second at hagree
  cases hagree with
  | ok value hafter => exact .ok value ⟨hafter.1, by rw [hafter.2]; rfl⟩
  | error fault hafter => exact .error _ ⟨hafter.1, by rw [hafter.2]; rfl⟩
  | excused hfault => exact .excused (.inr ⟨hfault.1, by rw [hfault.2]⟩) _ _

theorem onLog_lockstep {action action' : LogM α}
    (haction : Lockstep Eq (Added fewer more) action action') :
    Lockstep (Relaxed strict lenient) (Excused fewer more strict lenient) (onLog action)
      (onLog action') := by
  rintro machine _ ⟨rfl, rfl⟩
  have hagree := haction machine.log _ rfl
  simp only [onLog, relax]
  generalize action machine.log = first at hagree
  generalize action' machine.log = second at hagree
  cases hagree with
  | ok value hafter => exact .ok value ⟨rfl, by rw [hafter]; rfl⟩
  | error fault hafter => exact .error _ ⟨rfl, by rw [hafter]; rfl⟩
  | excused hfault => exact .excused (.inl hfault) _ _

theorem addOps_lockstep (count : Nat) {excused : ScriptError → Prop} :
    Lockstep (Relaxed strict lenient) excused (addOps count) (addOps count) := by
  rintro machine _ ⟨rfl, rfl⟩
  exact .ok _ ⟨rfl, rfl⟩

end Machine

namespace Checksig

theorem checkNullFail_reports (success : Bool) (blob : Bytes) (fault : ScriptError)
    (hcheck : checkNullFail success blob = .error fault) : fault.rules = [.nullFail] :=
  rules_of_test rfl fault hcheck

theorem verifySignature_lockstep (hsubset : fewer ⊆ more) (source : DigestSource)
    (blob : Bytes) {key : Bytes} (hcheck : PublicKey.checkEncoding more key = .ok ()) :
    Lockstep Eq (Added fewer more) (verifySignature source more blob key)
      (verifySignature source fewer blob key) := by
  apply Lockstep.check (Signature.parse_tightens hsubset blob)
  intro outcome _
  cases outcome with
  | invalid reason => exact .pure _
  | valid signature =>
      simp only [PublicKey.decodeUnder_eq_of_checkEncoding hsubset hcheck]
      split
      · exact .pure _
      · exact (Lockstep.same _).bind fun digest => .pure _

theorem checkSignature_lockstep (hsubset : fewer ⊆ more) (source : DigestSource)
    (blob key : Bytes) :
    Lockstep Eq (Added fewer more) (checkSignature source more blob key)
      (checkSignature source fewer blob key) := by
  apply Lockstep.check (PublicKey.checkEncoding_tightens hsubset key)
  intro _ hcheck
  apply (verifySignature_lockstep hsubset source blob hcheck).bind
  intro outcome
  cases outcome with
  | invalid reason => exact .pure _
  | valid success =>
      apply Lockstep.check (tightens_whenEnforced hsubset (checkNullFail_reports success blob))
      exact fun _ _ => .pure _

theorem eval_lockstep (hsubset : fewer ⊆ more) (source : DigestSource) :
    Lockstep (Machine.Relaxed strict lenient) (Excused fewer more strict lenient)
      (eval source more) (eval source fewer) := by
  apply (Machine.onStack_lockstep Stack.pop_lockstep).bind
  intro key
  apply (Machine.onStack_lockstep Stack.pop_lockstep).bind
  intro blob
  exact Machine.onLog_lockstep (checkSignature_lockstep hsubset source blob key)

end Checksig

namespace Multisig

theorem checkNullFail_reports (success : Bool) (signatures : List Bytes) (fault : ScriptError)
    (hcheck : checkNullFail success signatures = .error fault) : fault.rules = [.nullFail] :=
  rules_of_test rfl fault hcheck

theorem checkNullDummy_reports (dummy : Bytes) (fault : ScriptError)
    (hcheck : checkNullDummy dummy = .error fault) : fault.rules = [.nullDummy] :=
  rules_of_test rfl fault hcheck

theorem matchSignatures_lockstep (hsubset : fewer ⊆ more) (source : DigestSource)
    (signatures keys : List Bytes) :
    Lockstep Eq (Added fewer more) (matchSignatures source more signatures keys)
      (matchSignatures source fewer signatures keys) := by
  rintro log _ rfl
  have hdigest (hashType : HashType) : Lockstep Eq (Added fewer more)
      (DigestCache.fetch source signatures hashType)
      (DigestCache.fetch source signatures hashType) := .same _
  have hagree := matchFrom_lockstep hsubset hdigest signatures 0 keys ⟨[], log⟩ _ rfl
  simp only [matchSignatures]
  generalize matchFrom _ more signatures 0 keys _ = first at hagree
  generalize matchFrom _ fewer signatures 0 keys _ = second at hagree
  cases hagree with
  | ok value hafter => exact .ok _ (by rw [hafter])
  | error fault hafter => exact .error _ (by rw [hafter])
  | excused hfault => exact .excused hfault _ _

theorem conclude_lockstep (hsubset : fewer ⊆ more) (signatures : List Bytes) (matched : Matches) :
    Lockstep Eq (Added fewer more) (conclude more signatures matched)
      (conclude fewer signatures matched) := by
  apply Lockstep.check (tightens_whenEnforced hsubset (checkNullFail_reports _ _))
  exact fun _ _ => .pure _

theorem checkOperands_lockstep (hsubset : fewer ⊆ more) (source : DigestSource)
    (operands : Operands) :
    Lockstep Eq (Added fewer more) (checkOperands source more operands)
      (checkOperands source fewer operands) := by
  apply Lockstep.check (tightens_whenEnforced hsubset (checkNullDummy_reports operands.dummy))
  rintro - -
  exact (matchSignatures_lockstep hsubset source operands.signatures operands.keys).bind
    (conclude_lockstep hsubset operands.signatures)

variable (hminimal : lenient = true → strict = true)
include hminimal

theorem popCount_lockstep (limit : Nat) (outOfRange : Int → ScriptError) :
    Lockstep (Machine.Relaxed strict lenient) (Excused fewer more strict lenient)
      (popCount limit outOfRange) (popCount limit outOfRange) := by
  apply (Machine.onStack_lockstep (Stack.popNum_lockstep hminimal)).bind
  intro value
  exact .ofExcept _

theorem popKeys_lockstep :
    Lockstep (Machine.Relaxed strict lenient) (Excused fewer more strict lenient) popKeys
      popKeys := by
  apply (popCount_lockstep hminimal maxKeysPerMultisig .keyCount).bind
  intro keyCount
  apply (Machine.addOps_lockstep keyCount).bind
  rintro -
  apply Lockstep.read
  rintro machine _ ⟨-, rfl⟩
  rw [Machine.relax_opCount]
  split
  · exact .throw _
  · exact Machine.onStack_lockstep (Stack.popMany_lockstep keyCount)

theorem popSignatures_lockstep (keyCount : Nat) :
    Lockstep (Machine.Relaxed strict lenient) (Excused fewer more strict lenient)
      (popSignatures keyCount) (popSignatures keyCount) := by
  apply (popCount_lockstep hminimal keyCount (.signatureCount · keyCount)).bind
  intro signatureCount
  exact Machine.onStack_lockstep (Stack.popMany_lockstep signatureCount)

theorem popOperands_lockstep :
    Lockstep (Machine.Relaxed strict lenient) (Excused fewer more strict lenient) popOperands
      popOperands := by
  apply (popKeys_lockstep hminimal).bind
  intro keys
  apply (popSignatures_lockstep hminimal keys.length).bind
  intro signatures
  apply (Machine.onStack_lockstep Stack.pop_lockstep).bind
  exact fun dummy => .pure _

theorem eval_lockstep (hsubset : fewer ⊆ more) (source : DigestSource) :
    Lockstep (Machine.Relaxed strict lenient) (Excused fewer more strict lenient)
      (eval source more) (eval source fewer) := by
  apply (popOperands_lockstep hminimal).bind
  intro operands
  exact Machine.onLog_lockstep (checkOperands_lockstep hsubset source operands)

end Multisig

theorem Report.apply_lockstep (report : Report) (success : Bool) :
    Lockstep (Machine.Relaxed strict lenient) (Excused fewer more strict lenient)
      (report.apply success) (report.apply success) := by
  cases report with
  | push => exact Machine.onStack_lockstep (Stack.push_lockstep _)
  | verify opcode =>
      simp only [apply]
      split
      · exact .pure _
      · exact .throw _

theorem evalCheckSig_lockstep (hsubset : fewer ⊆ more) (source : DigestSource) (report : Report) :
    Lockstep (Machine.Relaxed strict lenient) (Excused fewer more strict lenient)
      (evalCheckSig source more report) (evalCheckSig source fewer report) := by
  rw [evalCheckSig_eq, evalCheckSig_eq]
  exact (Checksig.eval_lockstep hsubset source).bind report.apply_lockstep

theorem evalCheckMultiSig_lockstep (hminimal : lenient = true → strict = true)
    (hsubset : fewer ⊆ more) (source : DigestSource) (report : Report) :
    Lockstep (Machine.Relaxed strict lenient) (Excused fewer more strict lenient)
      (evalCheckMultiSig source more report) (evalCheckMultiSig source fewer report) :=
  (Multisig.eval_lockstep hminimal hsubset source).bind report.apply_lockstep

theorem evalOpcode_lockstep (hminimal : lenient = true → strict = true) (hsubset : fewer ⊆ more)
    (source : DigestSource) (opcode : Opcode) :
    Lockstep (Machine.Relaxed strict lenient) (Excused fewer more strict lenient)
      (evalOpcode source more opcode) (evalOpcode source fewer opcode) := by
  simp only [evalOpcode]
  split
  · exact evalCheckSig_lockstep hsubset source .push
  · split
    · exact evalCheckSig_lockstep hsubset source (.verify _)
    · split
      · exact evalCheckMultiSig_lockstep hminimal hsubset source .push
      · split
        · exact evalCheckMultiSig_lockstep hminimal hsubset source (.verify _)
        · exact .throw _

-- One step of a script that passes under more rules.
theorem evalOpcode_relax (hsubset : fewer ⊆ more) {minimal : Bool} {source : DigestSource}
    {opcode : Opcode} {machine after : Machine}
    (hminimal : minimal = true → machine.stack.requireMinimal = true)
    (hstep : evalOpcode source more opcode machine = .ok () after) :
    evalOpcode source fewer opcode (machine.relax minimal) = .ok () (after.relax minimal) ∧
      after.stack.requireMinimal = machine.stack.requireMinimal := by
  have hagree := evalOpcode_lockstep hminimal hsubset source opcode machine _ ⟨rfl, rfl⟩
  rw [hstep] at hagree
  obtain ⟨right, hright, hkept, rfl⟩ := hagree.of_ok
  exact ⟨hright, hkept⟩

-- The result of every step. One that failed leaves its state to the next as well.
def run (source : DigestSource) (flags : Flags) :
    List Opcode → Machine → List (EStateM.Result ScriptError Machine Unit)
  | [], _ => []
  | opcode :: rest, machine =>
      let result := evalOpcode source flags opcode machine
      result :: run source flags rest (finalState result)

theorem run_relax (hsubset : fewer ⊆ more) {minimal : Bool} (source : DigestSource)
    (opcodes : List Opcode) {machine : Machine} {states : List Machine}
    (hminimal : minimal = true → machine.stack.requireMinimal = true)
    (hrun : run source more opcodes machine = states.map (.ok ())) :
    run source fewer opcodes (machine.relax minimal) =
      (states.map (Machine.relax minimal)).map (.ok ()) := by
  induction opcodes generalizing machine states with
  | nil =>
      cases states with
      | nil => rfl
      | cons after rest => cases hrun
  | cons opcode opcodes ih =>
      cases states with
      | nil => cases hrun
      | cons after rest =>
          simp only [run, List.map_cons, List.cons.injEq] at hrun ⊢
          obtain ⟨hstep, hrest⟩ := hrun
          obtain ⟨hrelaxed, hkept⟩ := evalOpcode_relax hsubset hminimal hstep
          rw [hstep, finalState] at hrest
          rw [hrelaxed, finalState]
          exact ⟨rfl, ih (fun hon => hkept.trans (hminimal hon)) hrest⟩

theorem evalOpcode_added (hsubset : fewer ⊆ more) {source : DigestSource} {opcode : Opcode}
    {machine after final : Machine} {fault : ScriptError}
    (hfewer : evalOpcode source fewer opcode machine = .ok () after)
    (hmore : evalOpcode source more opcode machine = .error fault final) :
    Added fewer more fault := by
  have hagree := evalOpcode_lockstep id hsubset source opcode machine machine ⟨rfl, rfl⟩
  rw [hfewer, hmore] at hagree
  rcases hagree.excused_of_ok with hadded | ⟨hne, -⟩
  · exact hadded
  · exact absurd rfl hne

-- More rules never change what a script does. They can only stop it, and then with a violation of
-- a rule that was not enforced before.
theorem more_rules_only_stop (hsubset : fewer ⊆ more) (source : DigestSource) :
    (∀ (opcodes : List Opcode) (machine : Machine) (minimal : Bool) (states : List Machine),
      (minimal = true → machine.stack.requireMinimal = true) →
      run source more opcodes machine = states.map (.ok ()) →
      run source fewer opcodes (machine.relax minimal) =
        (states.map (Machine.relax minimal)).map (.ok ())) ∧
    ∀ (opcode : Opcode) (machine after final : Machine) (fault : ScriptError),
      evalOpcode source fewer opcode machine = .ok () after →
      evalOpcode source more opcode machine = .error fault final →
      Added fewer more fault :=
  ⟨fun opcodes _ _ _ hminimal hrun => run_relax hsubset source opcodes hminimal hrun,
    fun _ _ _ _ _ hfewer hmore => evalOpcode_added hsubset hfewer hmore⟩

-- The generator, spelled as all rules allow.
def compressedGenerator : Bytes := 0x02 :: Bytes.fixedBE 32 Curve.generatorX.val

-- Below the operands of a multisig are those of a check of one signature. The first key of the
-- multisig is well formed but stands for no point.
def standardStack : Stack where
  items := [[2], 0x02 :: List.replicate 32 0xff, compressedGenerator, [1], generatorSignature, [],
    compressedGenerator, generatorSignature]
  requireMinimal := true

-- Both checks pass under all rules, so they pass under none. A key of one byte is no strict key.
theorem more_rules_only_stop_none_standard :
    Flags.none ⊆ Flags.standard ∧
      (∃ states : List Machine,
        run (.constant zeroDigest) Flags.none [.checkMultiSigVerify, .checkSig]
          ⟨standardStack.relax false, 0, []⟩ = states.map (.ok ()) ∧
        states.map (·.stack.items) = [[compressedGenerator, generatorSignature], [[1]]] ∧
        states.map (·.opCount) = [2, 2] ∧ states.map (·.log.length) = [1, 2]) ∧
      Added Flags.none Flags.standard .pubkeyType := by
  have hsubset : Flags.none ⊆ Flags.standard := fun _ _ => rfl
  obtain ⟨hrun, hadded⟩ := more_rules_only_stop hsubset (.constant zeroDigest)
  refine ⟨hsubset, ?_, ?_⟩
  · have hpassed : ∀ result ∈ run (.constant zeroDigest) Flags.standard
        [.checkMultiSigVerify, .checkSig] ⟨standardStack, 0, []⟩, verdict result = .ok () := by
      decide +kernel
    have hrelaxed := hrun _ _ false _ (by decide) (eq_map_of_passed hpassed)
    exact ⟨_, hrelaxed, by decide +kernel, by decide +kernel, by decide +kernel⟩
  · exact hadded .checkSig ⟨⟨[[5], []], false⟩, 0, []⟩ ⟨⟨[[]], false⟩, 0, []⟩
      ⟨⟨[], false⟩, 0, []⟩ .pubkeyType rfl rfl

end SigOps
