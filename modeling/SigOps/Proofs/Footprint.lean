import SigOps.Proofs.Checksig
import SigOps.Proofs.Multisig.Judgement

namespace SigOps

namespace Opcode

-- Whether the opcode checks one signature under one key.
def ChecksOne (opcode : Opcode) : Prop := opcode = .checkSig ∨ opcode = .checkSigVerify

-- Whether the opcode checks several signatures under several keys.
def ChecksMany (opcode : Opcode) : Prop := opcode = .checkMultiSig ∨ opcode = .checkMultiSigVerify

-- Whether the opcode leaves the result of its check on the stack.
def Pushes (opcode : Opcode) : Prop := opcode = .checkSig ∨ opcode = .checkMultiSig

instance (opcode : Opcode) : Decidable opcode.ChecksMany :=
  inferInstanceAs (Decidable (_ ∨ _))

instance (opcode : Opcode) : Decidable opcode.Pushes :=
  inferInstanceAs (Decidable (_ ∨ _))

theorem not_checksMany {opcode : Opcode} (hone : opcode.ChecksOne) : ¬opcode.ChecksMany := by
  rcases hone with rfl | rfl
  · decide
  · decide

-- The outcomes of an opcode that has its operands.
def Concludes (opcode : Opcode) (outcome : Except ScriptError Unit) : Prop :=
  ∀ fault, outcome = .error fault → fault.IsFinding ∨ fault = .verify opcode

end Opcode

-- What becomes of the result of a check: it is pushed, or a false one aborts the script.
inductive Reported (opcode : Opcode) :
    EStateM.Result ScriptError Machine Bool → EStateM.Result ScriptError Machine Unit → Prop where
  | aborted (fault : ScriptError) (after : Machine) :
      Reported opcode (.error fault after) (.error fault after)
  | pushed (hpushes : opcode.Pushes) (success : Bool) (after : Machine) :
      Reported opcode (.ok success after) (.ok () { after with stack :=
        { after.stack with items := ScriptNum.ofBool success :: after.stack.items } })
  | passed (hpushes : ¬opcode.Pushes) (after : Machine) :
      Reported opcode (.ok true after) (.ok () after)
  | failed (hpushes : ¬opcode.Pushes) (after : Machine) :
      Reported opcode (.ok false after) (.error (.verify opcode) after)

section Reports

variable {opcode : Opcode}

theorem reported_push (hpushes : opcode.Pushes) (action : Eval Bool) (machine : Machine) :
    Reported opcode (action machine) ((action >>= Report.push.apply) machine) := by
  cases haction : action machine with
  | error fault after =>
      rw [bind_of_error haction]
      exact .aborted fault after
  | ok success after =>
      rw [bind_of_ok haction]
      exact .pushed hpushes success after

theorem reported_verify (hpushes : ¬opcode.Pushes) (action : Eval Bool) (machine : Machine) :
    Reported opcode (action machine) ((action >>= (Report.verify opcode).apply) machine) := by
  cases haction : action machine with
  | error fault after =>
      rw [bind_of_error haction]
      exact .aborted fault after
  | ok success after =>
      rw [bind_of_ok haction]
      cases success with
      | true => exact .passed hpushes after
      | false => exact .failed hpushes after

variable (source : DigestSource) (flags : Flags) (machine : Machine)

theorem reported_checksOne (hopcode : opcode.ChecksOne) :
    Reported opcode (Checksig.eval source flags machine)
      (evalOpcode source flags opcode machine) := by
  rcases hopcode with rfl | rfl
  · change Reported _ _ (evalCheckSig source flags .push machine)
    rw [evalCheckSig_eq]
    exact reported_push (.inl rfl) _ machine
  · change Reported _ _ (evalCheckSig source flags (.verify .checkSigVerify) machine)
    rw [evalCheckSig_eq]
    exact reported_verify (by decide) _ machine

theorem reported_checksMany (hopcode : opcode.ChecksMany) :
    Reported opcode (Multisig.eval source flags machine)
      (evalOpcode source flags opcode machine) := by
  rcases hopcode with rfl | rfl
  · exact reported_push (.inr rfl) _ machine
  · exact reported_verify (by decide) _ machine

theorem evalOpcode_unsupported (hone : ¬opcode.ChecksOne) (hmany : ¬opcode.ChecksMany) :
    evalOpcode source flags opcode machine = .error (.unsupportedOpcode opcode) machine := by
  simp only [Opcode.ChecksOne, Opcode.ChecksMany, not_or] at hone hmany
  rw [evalOpcode, if_neg hone.1, if_neg hone.2, if_neg hmany.1, if_neg hmany.2]
  rfl

end Reports

-- The elements that an opcode leaves above what remains of the stack.
inductive Leaves (opcode : Opcode) : Except ScriptError Unit → List Bytes → Prop where
  | result {item : Bytes} (hpushes : opcode.Pushes) (hitem : item = [1] ∨ item = []) :
      Leaves opcode (.ok ()) [item]
  | nothing {outcome : Except ScriptError Unit} (hnone : ¬(opcode.Pushes ∧ outcome = .ok ())) :
      Leaves opcode outcome []

-- How many elements an opcode takes off the stack and how many keys it counts. Where elements are
-- missing it takes what there is.
inductive Footprint (opcode : Opcode) (machine : Machine) :
    (taken charged : Nat) → Except ScriptError Unit → Prop where
  | unsupported (hone : ¬opcode.ChecksOne) (hmany : ¬opcode.ChecksMany) :
      Footprint opcode machine 0 0 (.error (.unsupportedOpcode opcode))
  | missing (hone : opcode.ChecksOne) (hfew : machine.stack.height < 2) :
      Footprint opcode machine 2 0 (.error (.stack .underflow))
  | checked {outcome : Except ScriptError Unit} (hone : opcode.ChecksOne)
      (henough : 2 ≤ machine.stack.height) (hconcludes : opcode.Concludes outcome) :
      Footprint opcode machine 2 0 outcome
  | refused {taken charged : Nat} {fault : ScriptError} (hmany : opcode.ChecksMany)
      (hrefusal : Multisig.Refusal machine taken charged fault) :
      Footprint opcode machine taken charged (.error fault)
  | matched {keys signatures : Nat} {outcome : Except ScriptError Unit} (hmany : opcode.ChecksMany)
      (hkeys : Multisig.KeyCount machine keys)
      (hsignatures : Multisig.SignatureCount machine keys signatures)
      (henough : keys + signatures + 3 ≤ machine.stack.height)
      (hconcludes : opcode.Concludes outcome) :
      Footprint opcode machine (keys + signatures + 3) keys outcome

-- The machine differs in what was taken, counted and left, and in the log.
def Moves (opcode : Opcode) (machine : Machine)
    (result : EStateM.Result ScriptError Machine Unit) : Prop :=
  ∃ taken charged pushed log, Footprint opcode machine taken charged (verdict result) ∧
    Leaves opcode (verdict result) pushed ∧
    finalState result =
      ⟨⟨pushed ++ machine.stack.items.drop taken, machine.stack.requireMinimal⟩,
        machine.opCount + UInt64.ofNat charged, log⟩

-- The opcode asks for an element when none is left.
inductive Starved (opcode : Opcode) (machine : Machine) : Prop where
  | operands (hone : opcode.ChecksOne) (hfew : machine.stack.height < 2)
  | keyCount (hmany : opcode.ChecksMany) (hempty : machine.stack.height = 0)
  | keys {keys : Nat} (hmany : opcode.ChecksMany) (hkeys : Multisig.KeyCount machine keys)
      (hfew : machine.stack.height < keys + 2)
  | signatures {keys signatures : Nat} (hmany : opcode.ChecksMany)
      (hkeys : Multisig.KeyCount machine keys)
      (hsignatures : Multisig.SignatureCount machine keys signatures)
      (hfew : machine.stack.height < keys + signatures + 3)

theorem Leaves.of_error {opcode : Opcode} (fault : ScriptError) :
    Leaves opcode (.error fault) [] := .nothing (by simp)

section Outcomes

variable {opcode : Opcode} {result : EStateM.Result ScriptError Machine Bool}
  {reported : EStateM.Result ScriptError Machine Unit}

theorem Reported.concludes (hreported : Reported opcode result reported)
    (hfinding : Reports ScriptError.IsFinding (verdict result)) :
    opcode.Concludes (verdict reported) := by
  intro fault hfault
  cases hreported with
  | aborted cause after =>
      cases hfault
      exact .inl (hfinding fault rfl)
  | pushed | passed => cases hfault
  | failed =>
      cases hfault
      exact .inr rfl

theorem Reported.aborts {fault : ScriptError} {after : Machine}
    (hreported : Reported opcode (.error fault after) reported) :
    reported = .error fault after := by
  cases hreported
  rfl

-- A result is pushed on what the check left.
theorem Reported.leaves (hreported : Reported opcode result reported) :
    ∃ pushed, Leaves opcode (verdict reported) pushed ∧
      finalState reported = { finalState result with
        stack := { (finalState result).stack with
          items := pushed ++ (finalState result).stack.items } } := by
  cases hreported with
  | aborted fault after => exact ⟨[], .of_error fault, rfl⟩
  | pushed hpushes success after =>
      refine ⟨[ScriptNum.ofBool success], .result hpushes ?_, rfl⟩
      cases success with
      | true => exact .inl rfl
      | false => exact .inr rfl
  | passed hpushes after => exact ⟨[], .nothing (fun hboth => hpushes hboth.1), rfl⟩
  | failed hpushes after => exact ⟨[], .nothing (fun hboth => hpushes hboth.1), rfl⟩

theorem Reported.moves {machine : Machine} {taken charged : Nat} {log : DigestLog}
    (hreported : Reported opcode result reported)
    (hfootprint : Footprint opcode machine taken charged (verdict reported))
    (hfinal : finalState result = { machine.advance taken charged with log }) :
    Moves opcode machine reported := by
  obtain ⟨pushed, hleaves, hafter⟩ := hreported.leaves
  rw [hfinal] at hafter
  exact ⟨taken, charged, pushed, log, hfootprint, hleaves, hafter⟩

end Outcomes

section Step

variable (source : DigestSource) (flags : Flags) {opcode : Opcode} (machine : Machine)

theorem moves_checksOne (hone : opcode.ChecksOne) :
    Moves opcode machine (evalOpcode source flags opcode machine) := by
  have hreported := reported_checksOne source flags machine hone
  rcases Checksig.eval_cases source flags machine with ⟨hfew, heval⟩ | ⟨blob, key, hitems, heval⟩
  · rw [heval] at hreported
    have haborts := hreported.aborts
    rw [haborts] at hreported ⊢
    exact hreported.moves (.missing hone hfew) rfl
  · have henough : 2 ≤ machine.stack.height := by
      rw [Stack.height, hitems]
      exact Nat.le_add_left 2 _
    have hfinding := (Checksig.checkSignature_finding source flags blob key).verdict_onLog
      (machine.advance 2 0)
    obtain ⟨log, hlog⟩ := Machine.exists_log_onLog (Checksig.checkSignature source flags blob key)
      (machine.advance 2 0)
    rw [heval] at hreported
    exact hreported.moves (.checked hone henough (hreported.concludes hfinding)) hlog

theorem moves_checksMany (hmany : opcode.ChecksMany) :
    Moves opcode machine (evalOpcode source flags opcode machine) := by
  have hreported := reported_checksMany source flags machine hmany
  rcases Multisig.eval_cases source flags machine with
    ⟨taken, charged, fault, hrefusal, heval⟩ | ⟨operands, base, hlaid⟩
  · rw [heval] at hreported
    have haborts := hreported.aborts
    rw [haborts] at hreported ⊢
    exact hreported.moves (.refused hmany hrefusal) rfl
  · have hfinding := Multisig.passesOperands_of_laid source flags hlaid
    obtain ⟨log, hlog⟩ := Machine.exists_log_onLog (Multisig.checkOperands source flags operands)
      (machine.advance operands.size operands.keys.length)
    rw [← Multisig.eval_of_laid source flags hlaid] at hlog
    exact hreported.moves (.matched hmany hlaid.keyCount hlaid.signatureCount hlaid.size_le
      (hreported.concludes hfinding)) hlog

theorem evalOpcode_moves (opcode : Opcode) :
    Moves opcode machine (evalOpcode source flags opcode machine) := by
  by_cases hone : opcode.ChecksOne
  · exact moves_checksOne source flags machine hone
  · by_cases hmany : opcode.ChecksMany
    · exact moves_checksMany source flags machine hmany
    · rw [evalOpcode_unsupported source flags machine hone hmany]
      have hcount : machine.opCount + UInt64.ofNat 0 = machine.opCount := UInt64.add_zero _
      refine ⟨0, 0, [], machine.log, .unsupported hone hmany, .of_error _, ?_⟩
      rw [hcount]
      rfl

end Step

section Underflow

variable {opcode : Opcode} {machine : Machine}

theorem Multisig.CountRefusal.underflow_iff {stack : Stack} {limit : Nat}
    {outOfRange : Int → ScriptError} (houtOfRange : ∀ value, outOfRange value ≠ .stack .underflow)
    {fault : ScriptError} (hrefusal : CountRefusal stack limit outOfRange fault) :
    fault = .stack .underflow ↔ stack.height < 1 := by
  cases hrefusal with
  | missing hempty => exact iff_of_true rfl hempty
  | unreadable hnumber =>
      have hpos := Stack.lt_height_of_numberAt? hnumber
      exact iff_of_false (by simp) (by omega)
  | outOfRange hnumber =>
      have hpos := Stack.lt_height_of_numberAt? hnumber
      exact iff_of_false (houtOfRange _) (by omega)

-- The three places where a multisig asks for an element exclude each other.
theorem Multisig.Refusal.underflow_iff {taken charged : Nat} {fault : ScriptError}
    (hrefusal : Refusal machine taken charged fault) (hmany : opcode.ChecksMany) :
    fault = .stack .underflow ↔ Starved opcode machine := by
  cases hrefusal with
  | keyCount hrefusal =>
      rw [hrefusal.underflow_iff (by simp)]
      constructor
      · intro hempty
        exact .keyCount hmany (Nat.lt_one_iff.mp hempty)
      · intro hstarved
        cases hstarved with
        | operands hone => exact absurd hmany (Opcode.not_checksMany hone)
        | keyCount _ hempty => omega
        | keys _ hkeys | signatures _ hkeys =>
            have hlimit := hrefusal.limit_lt hkeys.number
            have hle := hkeys.le_max
            omega
  | @opCount keys hnumber hle hlimit =>
      refine iff_of_false (by simp) ?_
      intro hstarved
      have hpos := Stack.lt_height_of_numberAt? hnumber
      cases hstarved with
      | operands hone => exact absurd hmany (Opcode.not_checksMany hone)
      | keyCount _ hempty => omega
      | keys _ hkeys | signatures _ hkeys =>
          have hsame := hkeys.number.symm.trans hnumber
          have hwithin := hkeys.within
          simp only [Option.some.injEq, Except.ok.injEq, Nat.cast_inj] at hsame
          rw [hsame] at hwithin
          omega
  | fewKeys hkeys hfew => exact iff_of_true rfl (.keys hmany hkeys (by omega))
  | signatureCount hkeys henough hrefusal =>
      rw [hrefusal.underflow_iff (by simp), Stack.height_drop]
      constructor
      · intro hempty
        exact .keys hmany hkeys (by omega)
      · intro hstarved
        cases hstarved with
        | operands hone => exact absurd hmany (Opcode.not_checksMany hone)
        | keyCount _ hempty => omega
        | keys _ hkeys' hfew =>
            have hsame := hkeys.unique hkeys'
            omega
        | signatures _ hkeys' hsignatures =>
            obtain rfl := hkeys.unique hkeys'
            have hlimit := hrefusal.limit_lt (by
              rw [Stack.numberAt?_drop, Nat.add_zero, hsignatures.number])
            have hle := hsignatures.le_keys
            omega
  | fewSignatures hkeys hsignatures hfew =>
      exact iff_of_true rfl (.signatures hmany hkeys hsignatures hfew)

theorem Multisig.Refusal.height_le {taken charged : Nat}
    (hrefusal : Refusal machine taken charged (.stack .underflow)) :
    machine.stack.height ≤ taken := by
  cases hrefusal with
  | keyCount hrefusal =>
      have hempty := (hrefusal.underflow_iff (by simp)).mp rfl
      omega
  | fewKeys _ hfew => omega
  | signatureCount _ _ hrefusal =>
      have hempty := (hrefusal.underflow_iff (by simp)).mp rfl
      rw [Stack.height_drop] at hempty
      omega
  | fewSignatures _ _ hfew => omega

theorem Opcode.Concludes.ne_underflow {outcome : Except ScriptError Unit}
    (hconcludes : opcode.Concludes outcome) : outcome ≠ .error (.stack .underflow) := by
  intro hunderflow
  have hallowed := hconcludes _ hunderflow
  simp [ScriptError.IsFinding, ScriptError.rules] at hallowed

theorem Footprint.underflow_iff {taken charged : Nat} {outcome : Except ScriptError Unit}
    (hfootprint : Footprint opcode machine taken charged outcome) :
    outcome = .error (.stack .underflow) ↔ Starved opcode machine := by
  cases hfootprint with
  | unsupported hone hmany =>
      refine iff_of_false (by simp) ?_
      intro hstarved
      cases hstarved with
      | operands hone' => exact hone hone'
      | keyCount hmany' | keys hmany' | signatures hmany' => exact hmany hmany'
  | missing hone hfew => exact iff_of_true rfl (.operands hone hfew)
  | checked hone henough hconcludes =>
      refine iff_of_false hconcludes.ne_underflow ?_
      intro hstarved
      cases hstarved with
      | operands _ hfew => omega
      | keyCount hmany | keys hmany | signatures hmany =>
          exact Opcode.not_checksMany hone hmany
  | refused hmany hrefusal => rw [Except.error.injEq, hrefusal.underflow_iff hmany]
  | matched hmany hkeys hsignatures henough hconcludes =>
      refine iff_of_false hconcludes.ne_underflow ?_
      intro hstarved
      cases hstarved with
      | operands hone => exact Opcode.not_checksMany hone hmany
      | keyCount _ hempty => omega
      | keys _ hkeys' hfew =>
          have hsame := hkeys.unique hkeys'
          omega
      | signatures _ hkeys' hsignatures' hfew =>
          obtain rfl := hkeys.unique hkeys'
          have hsame := hsignatures.unique hsignatures'
          omega

theorem Footprint.height_le {taken charged : Nat}
    (hfootprint : Footprint opcode machine taken charged (.error (.stack .underflow))) :
    machine.stack.height ≤ taken := by
  cases hfootprint with
  | missing _ hfew => omega
  | checked _ _ hconcludes | matched _ _ _ _ hconcludes => exact absurd rfl hconcludes.ne_underflow
  | refused _ hrefusal => exact hrefusal.height_le

end Underflow

end SigOps
