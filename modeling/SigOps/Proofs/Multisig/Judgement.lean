import SigOps.Proofs.Multisig.Operands

namespace SigOps.Multisig

-- What follows from matching the signatures. The first machine is the one without the operands.
inductive Concluded (flags : Flags) (signatures : List Bytes) (popped : Machine) :
    EStateM.Result ScriptError DigestLog Matches →
      EStateM.Result ScriptError Machine Bool → Prop where
  | aborted (fault : ScriptError) (log : DigestLog) :
      Concluded flags signatures popped (.error fault log) (.error fault { popped with log })
  | satisfied {matched : Matches} (log : DigestLog)
      (hsatisfied : matched.isSatisfied signatures.length = true) :
      Concluded flags signatures popped (.ok matched log) (.ok true { popped with log })
  | nullFail {matched : Matches} (log : DigestLog)
      (hunsatisfied : matched.isSatisfied signatures.length = false)
      (hrule : flags.enforces .nullFail = true) (hblob : ∃ blob ∈ signatures, blob ≠ []) :
      Concluded flags signatures popped (.ok matched log) (.error .nullFail { popped with log })
  | failed {matched : Matches} (log : DigestLog)
      (hunsatisfied : matched.isSatisfied signatures.length = false)
      (hblobs : flags.enforces .nullFail = false ∨ ∀ blob ∈ signatures, blob = []) :
      Concluded flags signatures popped (.ok matched log) (.ok false { popped with log })

-- The extra element is looked at before any signature. No digest is requested for it.
inductive Judged (source : DigestSource) (flags : Flags) (operands : Operands) (popped : Machine) :
    EStateM.Result ScriptError Machine Bool → Prop where
  | nullDummy (hrule : flags.enforces .nullDummy = true) (hdummy : operands.dummy ≠ []) :
      Judged source flags operands popped (.error (.nullDummy operands.dummy.length) popped)
  | matched (hdummy : flags.enforces .nullDummy = false ∨ operands.dummy = [])
      {result : EStateM.Result ScriptError Machine Bool}
      (hconcluded : Concluded flags operands.signatures popped
        (matchSignatures source flags operands.signatures operands.keys popped.log) result) :
      Judged source flags operands popped result

variable {machine : Machine} {operands : Operands} {base : List Bytes}
variable (source : DigestSource) (flags : Flags)

theorem concluded_conclude (signatures : List Bytes) (popped : Machine)
    (matching : LogM Matches) :
    Concluded flags signatures popped (matching popped.log)
      (Machine.onLog (matching >>= conclude flags signatures) popped) := by
  cases hmatching : matching popped.log with
  | error fault log =>
      rw [Machine.onLog, bind_of_error hmatching]
      exact .aborted fault log
  | ok matched log =>
      rw [Machine.onLog, bind_of_ok hmatching]
      cases hsatisfied : matched.isSatisfied signatures.length with
      | true =>
          have hcheck : flags.whenEnforced .nullFail (checkNullFail true signatures) = .ok () := by
            simp [Flags.whenEnforced, checkNullFail]
          simp only [conclude, hsatisfied, hcheck]
          exact .satisfied log hsatisfied
      | false =>
          by_cases hblob : flags.enforces .nullFail = true ∧ ∃ blob ∈ signatures, blob ≠ []
          · have hcheck : flags.whenEnforced .nullFail (checkNullFail false signatures) =
                .error .nullFail := by
              simpa [Flags.whenEnforced, checkNullFail, hblob.1] using hblob.2
            simp only [conclude, hsatisfied, hcheck]
            exact .nullFail log hsatisfied hblob.1 hblob.2
          · have hblobs : flags.enforces .nullFail = false ∨ ∀ blob ∈ signatures, blob = [] := by
              simpa [imp_iff_not_or] using hblob
            have hcheck :
                flags.whenEnforced .nullFail (checkNullFail false signatures) = .ok () := by
              rcases hblobs with hrule | hempty
              · simp [Flags.whenEnforced, hrule]
              · simpa [Flags.whenEnforced, checkNullFail] using fun _ => hempty
            simp only [conclude, hsatisfied, hcheck]
            exact .failed log hsatisfied hblobs

theorem Concluded.verdict_eq_true_iff {flags : Flags} {signatures : List Bytes}
    {popped : Machine} {matching : EStateM.Result ScriptError DigestLog Matches}
    {result : EStateM.Result ScriptError Machine Bool}
    (hconcluded : Concluded flags signatures popped matching result) :
    verdict result = .ok true ↔
      (verdict matching).map (·.isSatisfied signatures.length) = .ok true := by
  cases hconcluded with
  | aborted fault log => exact iff_of_false (by simp [verdict]) (by simp [verdict, Except.map])
  | satisfied log hsatisfied => exact iff_of_true rfl (congrArg Except.ok hsatisfied)
  | nullFail log hunsatisfied | failed log hunsatisfied =>
      exact iff_of_false (by simp [verdict]) (by simp [verdict, Except.map, hunsatisfied])

-- Only one rule looks at the signatures of a failed match.
theorem Concluded.verdict_eq {flags : Flags} {signatures : List Bytes}
    {popped : Machine} {matching : EStateM.Result ScriptError DigestLog Matches}
    {result : EStateM.Result ScriptError Machine Bool}
    (hconcluded : Concluded flags signatures popped matching result)
    (hrule : flags.enforces .nullFail = false) :
    verdict result = (verdict matching).map (·.isSatisfied signatures.length) := by
  cases hconcluded with
  | aborted fault log => rfl
  | satisfied log hsatisfied => exact congrArg Except.ok hsatisfied.symm
  | nullFail log _ henforced =>
      rw [hrule] at henforced
      cases henforced
  | failed log hunsatisfied => exact congrArg Except.ok hunsatisfied.symm

theorem judged_checkOperands (operands : Operands) (popped : Machine) :
    Judged source flags operands popped
      (Machine.onLog (checkOperands source flags operands) popped) := by
  unfold checkOperands
  by_cases hdummy : flags.enforces .nullDummy = true ∧ operands.dummy ≠ []
  · have hcheck : flags.whenEnforced .nullDummy (checkNullDummy operands.dummy) =
        .error (.nullDummy operands.dummy.length) := by
      simp [Flags.whenEnforced, checkNullDummy, hdummy.1, hdummy.2]
    rw [hcheck]
    exact .nullDummy hdummy.1 hdummy.2
  · have hpasses : flags.enforces .nullDummy = false ∨ operands.dummy = [] := by
      simpa [imp_iff_not_or] using hdummy
    have hcheck : flags.whenEnforced .nullDummy (checkNullDummy operands.dummy) = .ok () := by
      rcases hpasses with hrule | hempty
      · simp [Flags.whenEnforced, hrule]
      · simp [Flags.whenEnforced, checkNullDummy, hempty]
    rw [hcheck]
    exact .matched hpasses (concluded_conclude flags _ popped _)

theorem eval_of_laid (hlaid : Laid machine operands base) :
    eval source flags machine = Machine.onLog (checkOperands source flags operands)
      (machine.advance operands.size operands.keys.length) :=
  bind_of_ok (popOperands_of_laid hlaid)

theorem judged_of_laid (hlaid : Laid machine operands base) :
    Judged source flags operands (machine.advance operands.size operands.keys.length)
      (eval source flags machine) := by
  rw [eval_of_laid source flags hlaid]
  exact judged_checkOperands source flags operands _

theorem concluded_of_laid (hlaid : Laid machine operands base) (hdummy : operands.dummy = []) :
    Concluded flags operands.signatures (machine.advance operands.size operands.keys.length)
      (matchSignatures source flags operands.signatures operands.keys machine.log)
      (eval source flags machine) := by
  have hjudged := judged_of_laid source flags hlaid
  generalize eval source flags machine = result at hjudged ⊢
  cases hjudged with
  | nullDummy _ hnonempty => exact absurd hdummy hnonempty
  | matched _ hconcluded => exact hconcluded

theorem eval_cases (machine : Machine) :
    (∃ taken charged fault, Refusal machine taken charged fault ∧
      eval source flags machine = .error fault (machine.advance taken charged)) ∨
    ∃ operands base, Laid machine operands base := by
  rcases popOperands_cases machine with
    ⟨taken, charged, fault, hrefusal, hpop⟩ | ⟨operands, hlaid, -⟩
  · exact .inl ⟨taken, charged, fault, hrefusal, bind_of_error hpop⟩
  · exact .inr ⟨operands, _, hlaid⟩

theorem CountRefusal.not_finding {stack : Stack} {limit : Nat} {outOfRange : Int → ScriptError}
    (houtOfRange : ∀ value, ¬(outOfRange value).IsFinding) {fault : ScriptError}
    (hrefusal : CountRefusal stack limit outOfRange fault) : ¬fault.IsFinding := by
  cases hrefusal with
  | missing => simp [ScriptError.IsFinding, ScriptError.rules]
  | unreadable => simp [ScriptError.IsFinding, ScriptError.rules]
  | outOfRange => exact houtOfRange _

theorem Refusal.not_finding {taken charged : Nat} {fault : ScriptError}
    (hrefusal : Refusal machine taken charged fault) : ¬fault.IsFinding := by
  cases hrefusal with
  | keyCount hrefusal =>
      apply hrefusal.not_finding
      simp [ScriptError.IsFinding, ScriptError.rules]
  | opCount => simp [ScriptError.IsFinding, ScriptError.rules]
  | fewKeys => simp [ScriptError.IsFinding, ScriptError.rules]
  | signatureCount _ _ hrefusal =>
      apply hrefusal.not_finding
      simp [ScriptError.IsFinding, ScriptError.rules]
  | fewSignatures => simp [ScriptError.IsFinding, ScriptError.rules]

-- No error, or one that is raised with all the operands off the stack.
def PassesOperands (result : EStateM.Result ScriptError Machine Bool) : Prop :=
  ∀ fault, verdict result = .error fault → fault.IsFinding

theorem passesOperands_of_laid (hlaid : Laid machine operands base) :
    PassesOperands (eval source flags machine) := by
  rw [eval_of_laid source flags hlaid]
  exact (checkOperands_finding source flags operands).verdict_onLog _

theorem passesOperands_iff (machine : Machine) :
    PassesOperands (eval source flags machine) ↔ ∃ operands base, Laid machine operands base := by
  constructor
  · intro hpasses
    rcases eval_cases source flags machine with ⟨_, _, fault, hrefusal, heval⟩ | hlaid
    · rw [heval] at hpasses
      exact absurd (hpasses fault rfl) hrefusal.not_finding
    · exact hlaid
  · intro hlaid
    obtain ⟨operands, base, hlaid⟩ := hlaid
    exact passesOperands_of_laid source flags hlaid

theorem popOperands_eq_ok_iff (machine : Machine) :
    (∃ operands popped, popOperands machine = .ok operands popped) ↔
      ∃ operands base, Laid machine operands base := by
  constructor
  · intro hpop
    obtain ⟨operands, popped, hpop⟩ := hpop
    rcases popOperands_cases machine with ⟨_, _, _, -, hfault⟩ | ⟨operands', hlaid, -⟩
    · rw [hpop] at hfault
      cases hfault
    · exact ⟨operands', _, hlaid⟩
  · intro hlaid
    obtain ⟨operands, base, hlaid⟩ := hlaid
    exact ⟨operands, _, popOperands_of_laid hlaid⟩

-- Operands that are pushed in order are read back, and what is read was laid out in this order. The
-- counts may have been spelled otherwise where the stack does not ask for minimal spellings.
theorem eval_reads_layout (source : DigestSource) (flags : Flags) :
    (∀ (operands : Operands) (base : List Bytes) (minimal : Bool) (opCount : UInt64)
        (log : DigestLog),
      operands.signatures.length ≤ operands.keys.length →
      operands.keys.length ≤ maxKeysPerMultisig →
      opCount.toNat + operands.keys.length ≤ maxOpsPerScript →
      Judged source flags operands
        ⟨⟨base, minimal⟩, opCount + UInt64.ofNat operands.keys.length, log⟩
        (eval source flags ⟨⟨operands.pushed base, minimal⟩, opCount, log⟩)) ∧
    ∀ machine : Machine,
      (PassesOperands (eval source flags machine) ↔
        ∃ operands popped, popOperands machine = .ok operands popped) ∧
      (PassesOperands (eval source flags machine) →
        ∃ operands base, Laid machine operands base ∧
          (machine.stack.requireMinimal = true → machine.stack.items = operands.pushed base) ∧
          Judged source flags operands ⟨{ machine.stack with items := base },
            machine.opCount + UInt64.ofNat operands.keys.length, machine.log⟩
            (eval source flags machine)) := by
  have hjudged {machine : Machine} {operands : Operands} {base : List Bytes}
      (hlaid : Laid machine operands base) :
      Judged source flags operands ⟨{ machine.stack with items := base },
        machine.opCount + UInt64.ofNat operands.keys.length, machine.log⟩
        (eval source flags machine) := by
    have hpopped := judged_of_laid source flags hlaid
    rwa [Machine.advance, Stack.drop, ← Stack.drop_items, hlaid.base_eq] at hpopped
  constructor
  · intro operands base minimal opCount log hsignatures hkeys hops
    exact hjudged (laid_pushed hsignatures hkeys hops)
  · intro machine
    rw [passesOperands_iff, popOperands_eq_ok_iff]
    refine ⟨Iff.rfl, ?_⟩
    intro hlaid
    obtain ⟨operands, base, hlaid⟩ := hlaid
    exact ⟨operands, base, hlaid, hlaid.items_eq_pushed, hjudged hlaid⟩

-- One signature under the second of two keys, with an element below the operands.
theorem eval_reads_layout_generator :
    ∃ log, eval (.constant zeroDigest) Flags.none
      ⟨⟨Operands.pushed ⟨[generatorSignature], [[], generatorKey], []⟩ [[7]], true⟩, 199, []⟩ =
        .ok true ⟨⟨[[7]], true⟩, 201, log⟩ := by
  have hverdict : verdict (matchSignatures (.constant zeroDigest) Flags.none [generatorSignature]
      [[], generatorKey] []) = .ok ⟨[some 1]⟩ := by
    decide +kernel
  obtain ⟨hforward, -⟩ := eval_reads_layout (.constant zeroDigest) Flags.none
  have hjudged := hforward ⟨[generatorSignature], [[], generatorKey], []⟩ [[7]] true 199 []
    (by simp) (by simp [maxKeysPerMultisig]) (by simp [maxOpsPerScript])
  generalize eval (.constant zeroDigest) Flags.none _ = result at hjudged ⊢
  cases hjudged with
  | nullDummy hrule => cases hrule
  | matched _ hconcluded =>
      simp only [] at hconcluded
      generalize matchSignatures (.constant zeroDigest) Flags.none [generatorSignature]
        [[], generatorKey] [] = matching at hverdict hconcluded
      cases hconcluded with
      | aborted => cases hverdict
      | satisfied log => exact ⟨log, rfl⟩
      | nullFail _ hunsatisfied =>
          cases hverdict
          cases hunsatisfied
      | failed _ hunsatisfied =>
          cases hverdict
          cases hunsatisfied

end SigOps.Multisig
