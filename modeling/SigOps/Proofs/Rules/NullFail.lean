import SigOps.Proofs.Checksig
import SigOps.Proofs.Multisig.Course
import SigOps.Proofs.Multisig.Judgement
import SigOps.Proofs.Signature.Blob

namespace SigOps

variable {flags : Flags}

-- The result without the rule and the result with it. Both leave the same state.
inductive NullFailed {σ : Type} (violates : Prop) :
    EStateM.Result ScriptError σ Bool → EStateM.Result ScriptError σ Bool → Prop where
  | aborted (fault : ScriptError) (after : σ) :
      NullFailed violates (.error fault after) (.error fault after)
  | passed (after : σ) : NullFailed violates (.ok true after) (.ok true after)
  | kept (hobeys : ¬violates) (after : σ) : NullFailed violates (.ok false after) (.ok false after)
  | rejected (hviolates : violates) (after : σ) :
      NullFailed violates (.ok false after) (.error .nullFail after)

theorem NullFailed.onLog {violates : Prop} {action action' : LogM Bool} {machine : Machine}
    (hfailed : NullFailed violates (action machine.log) (action' machine.log)) :
    NullFailed violates (Machine.onLog action machine) (Machine.onLog action' machine) := by
  simp only [Machine.onLog]
  generalize action machine.log = first at hfailed ⊢
  generalize action' machine.log = second at hfailed ⊢
  cases hfailed with
  | aborted fault log => exact .aborted fault _
  | passed log => exact .passed _
  | kept hobeys log => exact .kept hobeys _
  | rejected hviolates log => exact .rejected hviolates _

theorem Signature.parse_enable_nullFail (flags : Flags) (blob : Bytes) :
    parse (flags.enable .nullFail) blob = parse flags blob := rfl

theorem Signature.parse_nil (flags : Flags) : parse flags [] = .ok (.invalid .emptySignature) := rfl

theorem PublicKey.checkEncoding_enable_nullFail (flags : Flags) (key : Bytes) :
    checkEncoding (flags.enable .nullFail) key = checkEncoding flags key := rfl

theorem Flags.whenEnforced_of_enforces {rule : Rule} {check : Except ScriptError Unit}
    (hrule : flags.enforces rule = true) : flags.whenEnforced rule check = check := if_pos hrule

theorem Flags.whenEnforced_of_not {rule : Rule} {check : Except ScriptError Unit}
    (hrule : flags.enforces rule = false) : flags.whenEnforced rule check = .ok () := by
  rw [whenEnforced, hrule]
  rfl

namespace Checksig

-- Both operands make sense, whether or not the signature verifies.
def Readable (flags : Flags) (blob key : Bytes) : Prop :=
  ∃ signature publicKey, Signature.parse flags blob = .ok (.valid signature) ∧
    PublicKey.decodeUnder flags key = .ok publicKey

theorem Readable.ne_nil {blob key : Bytes} (hreadable : Readable flags blob key) : blob ≠ [] := by
  obtain ⟨signature, _, hparse, -⟩ := hreadable
  rintro rfl
  cases hparse

theorem readable_iff_of_verifySignature {source : DigestSource} {blob key : Bytes}
    {log after : DigestLog} {outcome : Outcome Bool}
    (hverify : verifySignature source flags blob key log = .ok outcome after) :
    (∃ success, outcome = .valid success) ↔ Readable flags blob key := by
  obtain ⟨parsed, _, hparsed, hverify⟩ := run_bind_eq_ok_iff.mp hverify
  obtain ⟨hparse, rfl⟩ := run_ofExcept_eq_ok_iff.mp hparsed
  cases parsed with
  | invalid reason =>
      cases hverify
      refine iff_of_false (by simp) ?_
      rintro ⟨signature, _, hvalid, -⟩
      rw [hparse] at hvalid
      cases hvalid
  | valid signature =>
      cases hdecode : PublicKey.decodeUnder flags key with
      | error fault =>
          simp only [hdecode] at hverify
          cases hverify
          refine iff_of_false (by simp) ?_
          rintro ⟨_, publicKey, -, hvalid⟩
          rw [hdecode] at hvalid
          cases hvalid
      | ok publicKey =>
          simp only [hdecode] at hverify
          obtain ⟨digest, _, -, hverify⟩ := run_bind_eq_ok_iff.mp hverify
          cases hverify
          exact iff_of_true ⟨_, rfl⟩ ⟨signature, publicKey, hparse, hdecode⟩

theorem nullFailed_checkSignature (source : DigestSource) (hrule : flags.enforces .nullFail = false)
    (blob key : Bytes) (log : DigestLog) :
    NullFailed (Readable flags blob key) (checkSignature source flags blob key log)
      (checkSignature source (flags.enable .nullFail) blob key log) := by
  have hverify : verifySignature source (flags.enable .nullFail) blob key =
      verifySignature source flags blob key := rfl
  have hon : (flags.enable .nullFail).enforces .nullFail = true := rfl
  simp only [checkSignature, PublicKey.checkEncoding_enable_nullFail, hverify,
    Flags.whenEnforced_of_enforces hon, Flags.whenEnforced_of_not hrule]
  cases PublicKey.checkEncoding flags key with
  | error fault => exact .aborted fault log
  | ok =>
      have hchecked : (ofExcept (.ok ()) : LogM Unit) log = .ok () log := rfl
      rw [bind_of_ok hchecked, bind_of_ok hchecked]
      cases hrun : verifySignature source flags blob key log with
      | error fault after =>
          rw [bind_of_error hrun, bind_of_error hrun]
          exact .aborted fault after
      | ok outcome after =>
          have hreadable := readable_iff_of_verifySignature hrun
          rw [bind_of_ok hrun, bind_of_ok hrun]
          cases outcome with
          | invalid reason => exact .kept (fun hread => by simpa using hreadable.mpr hread) after
          | valid success =>
              have hread := hreadable.mp ⟨success, rfl⟩
              cases success with
              | true => exact .passed after
              | false =>
                  have hempty : blob.isEmpty = false := by simpa using hread.ne_nil
                  simp only [checkNullFail, hempty]
                  exact .rejected hread after

-- There are operands on the stack, and they are readable.
def HasReadable (flags : Flags) (machine : Machine) : Prop :=
  ∃ blob key base, machine.stack.items = key :: blob :: base ∧ Readable flags blob key

theorem nullFailed_eval (source : DigestSource) (hrule : flags.enforces .nullFail = false)
    (machine : Machine) :
    NullFailed (HasReadable flags machine) (eval source flags machine)
      (eval source (flags.enable .nullFail) machine) := by
  rcases eval_cases source flags machine with ⟨hfew, heval⟩ | ⟨blob, key, hitems, -⟩
  · rcases eval_cases source (flags.enable .nullFail) machine with
      ⟨-, heval'⟩ | ⟨blob, key, hitems, -⟩
    · rw [heval, heval']
      exact .aborted _ _
    · rw [Stack.height, hitems] at hfew
      exact absurd hfew (by simp)
  · have hreadable : Readable flags blob key ↔ HasReadable flags machine := by
      constructor
      · exact fun hread => ⟨blob, key, _, hitems, hread⟩
      · rintro ⟨_, _, _, hsame, hread⟩
        rw [hitems] at hsame
        cases hsame
        exact hread
    rw [eval_of_items hitems, eval_of_items hitems, ← hreadable]
    exact (nullFailed_checkSignature source hrule blob key _).onLog

theorem not_readable_of_checkSignature {source : DigestSource} {blob key : Bytes}
    {log after : DigestLog} (hrule : flags.enforces .nullFail = true) (hblob : blob ≠ [])
    (hcheck : checkSignature source flags blob key log = .ok false after) :
    ¬Readable flags blob key ∧ ∃ outcome, Signature.parse flags blob = .ok outcome := by
  obtain ⟨_, _, -, hcheck⟩ := run_bind_eq_ok_iff.mp hcheck
  obtain ⟨outcome, _, hverify, hcheck⟩ := run_bind_eq_ok_iff.mp hcheck
  have hreadable := readable_iff_of_verifySignature hverify
  obtain ⟨parsed, _, hparse, -⟩ := run_bind_eq_ok_iff.mp hverify
  refine ⟨fun hread => ?_, parsed, (run_ofExcept_eq_ok_iff.mp hparse).1⟩
  obtain ⟨success, rfl⟩ := hreadable.mpr hread
  obtain ⟨_, _, hrun, hcheck⟩ := run_bind_eq_ok_iff.mp hcheck
  cases hcheck
  obtain ⟨hnull, -⟩ := run_ofExcept_eq_ok_iff.mp hrun
  simp [Flags.whenEnforced_of_enforces hrule, checkNullFail, hblob] at hnull

-- Under the rule a signature that is not empty makes no sense if the result is false, or its key
-- does not.
theorem unreadable_of_eval {source : DigestSource} (hrule : flags.enforces .nullFail = true)
    {machine after : Machine} {blob key : Bytes} {base : List Bytes}
    (hitems : machine.stack.items = key :: blob :: base) (hblob : blob ≠ [])
    (heval : eval source flags machine = .ok false after) :
    (∃ fault, PublicKey.decodeUnder flags key = .error fault) ∨
      flags.requiresDer = false ∧ ∃ fault, Der.decode .lax blob.dropLast = .error fault := by
  have hverdict := congrArg verdict heval
  rw [eval_of_items hitems, Machine.verdict_onLog] at hverdict
  obtain ⟨_, hcheck⟩ := exists_state_of_verdict hverdict
  obtain ⟨hnot, outcome, hparse⟩ := not_readable_of_checkSignature hrule hblob hcheck
  cases outcome with
  | invalid reason => exact .inr (Signature.decode_of_parse_invalid hblob hparse)
  | valid signature =>
      left
      cases hdecode : PublicKey.decodeUnder flags key with
      | error fault => exact ⟨fault, rfl⟩
      | ok publicKey => exact absurd ⟨signature, publicKey, hparse, hdecode⟩ hnot

end Checksig

namespace Multisig

theorem findKey_enable_nullFail (candidates : List PublicKey) (reserved position : Nat)
    (keys : List Bytes) :
    findKey (flags.enable .nullFail) candidates reserved position keys =
      findKey flags candidates reserved position keys := by
  induction keys generalizing position with
  | nil => rfl
  | cons key rest ih =>
      have hcandidate : isCandidate (flags.enable .nullFail) candidates key =
          isCandidate flags candidates key := rfl
      simp only [findKey, PublicKey.checkEncoding_enable_nullFail, hcandidate, ih]

theorem matchFrom_enable_nullFail {σ : Type} (digestOf : HashType → EStateM ScriptError σ Digest)
    (signatures : List Bytes) (position : Nat) (keys : List Bytes) :
    matchFrom digestOf (flags.enable .nullFail) signatures position keys =
      matchFrom digestOf flags signatures position keys := by
  induction signatures generalizing position keys with
  | nil => rfl
  | cons blob later ih =>
      simp only [matchFrom, Signature.parse_enable_nullFail, findKey_enable_nullFail, ih]

theorem matchSignatures_enable_nullFail (source : DigestSource) (signatures keys : List Bytes) :
    matchSignatures source (flags.enable .nullFail) signatures keys =
      matchSignatures source flags signatures keys := by
  funext log
  simp only [matchSignatures, matchFrom_enable_nullFail]

theorem Concluded.nullFailed {signatures : List Bytes} {popped : Machine}
    {matching : EStateM.Result ScriptError DigestLog Matches}
    {result result' : EStateM.Result ScriptError Machine Bool}
    (hrule : flags.enforces .nullFail = false)
    (hconcluded : Concluded flags signatures popped matching result)
    (hconcluded' : Concluded (flags.enable .nullFail) signatures popped matching result') :
    NullFailed (∃ blob ∈ signatures, blob ≠ []) result result' := by
  cases hconcluded with
  | aborted fault log =>
      cases hconcluded'
      exact .aborted fault _
  | satisfied log hsatisfied =>
      cases hconcluded' with
      | satisfied => exact .passed _
      | nullFail _ hunsatisfied | failed _ hunsatisfied =>
          rw [hsatisfied] at hunsatisfied
          cases hunsatisfied
  | nullFail log _ henforced =>
      rw [hrule] at henforced
      cases henforced
  | failed log hunsatisfied =>
      cases hconcluded' with
      | satisfied _ hsatisfied =>
          rw [hsatisfied] at hunsatisfied
          cases hunsatisfied
      | nullFail _ _ _ hblob => exact .rejected hblob _
      | failed _ _ hblobs =>
          refine .kept ?_ _
          rintro ⟨blob, hmem, hblob⟩
          rcases hblobs with hoff | hempty
          · cases hoff
          · exact hblob (hempty blob hmem)

theorem nullFailed_checkOperands (source : DigestSource) (hrule : flags.enforces .nullFail = false)
    (operands : Operands) (popped : Machine) :
    NullFailed (∃ blob ∈ operands.signatures, blob ≠ [])
      (Machine.onLog (checkOperands source flags operands) popped)
      (Machine.onLog (checkOperands source (flags.enable .nullFail) operands) popped) := by
  have hdummies : (flags.enable .nullFail).enforces .nullDummy = flags.enforces .nullDummy := rfl
  have hjudged := judged_checkOperands source flags operands popped
  have hjudged' := judged_checkOperands source (flags.enable .nullFail) operands popped
  generalize Machine.onLog (checkOperands source flags operands) popped = result at hjudged ⊢
  generalize Machine.onLog (checkOperands source (flags.enable .nullFail) operands) popped =
    result' at hjudged' ⊢
  cases hjudged with
  | nullDummy hon hdummy =>
      cases hjudged' with
      | nullDummy => exact .aborted _ _
      | matched hpasses =>
          rw [hdummies, hon] at hpasses
          exact absurd hpasses (by simp [hdummy])
  | matched hpasses hconcluded =>
      cases hjudged' with
      | nullDummy hon hdummy =>
          rw [hdummies] at hon
          rw [hon] at hpasses
          exact absurd hpasses (by simp [hdummy])
      | matched _ hconcluded' =>
          rw [matchSignatures_enable_nullFail] at hconcluded'
          exact hconcluded.nullFailed hrule hconcluded'

-- There are operands on the stack, and a signature among them is not empty.
def HasSignature (machine : Machine) : Prop :=
  ∃ operands popped, popOperands machine = .ok operands popped ∧
    ∃ blob ∈ operands.signatures, blob ≠ []

theorem nullFailed_eval (source : DigestSource) (hrule : flags.enforces .nullFail = false)
    (machine : Machine) :
    NullFailed (HasSignature machine) (eval source flags machine)
      (eval source (flags.enable .nullFail) machine) := by
  cases hpop : popOperands machine with
  | error fault after =>
      rw [eval, eval, bind_of_error hpop, bind_of_error hpop]
      exact .aborted fault after
  | ok operands popped =>
      have hsigned : (∃ blob ∈ operands.signatures, blob ≠ []) ↔ HasSignature machine := by
        constructor
        · exact fun hblob => ⟨operands, popped, hpop, hblob⟩
        · rintro ⟨_, _, hsame, hblob⟩
          rw [hpop] at hsame
          cases hsame
          exact hblob
      rw [eval, eval, bind_of_ok hpop, bind_of_ok hpop, ← hsigned]
      exact nullFailed_checkOperands source hrule operands popped

theorem log_of_popOperands {machine popped : Machine} {operands : Operands}
    (hpop : popOperands machine = .ok operands popped) : popped.log = machine.log := by
  rcases popOperands_cases machine with ⟨_, _, _, -, hfault⟩ | ⟨_, -, hpopped⟩
  · rw [hpop] at hfault
    cases hfault
  · rw [hpop] at hpopped
    cases hpopped
    rfl

-- Nothing is requested for empty signatures. The first of them ends the matching.
theorem Course.of_empty {σ : Type} {digestOf : HashType → EStateM ScriptError σ Digest}
    {signatures keys : List Bytes} {position : Nat} {state after : σ} {matched : List (Option Nat)}
    (hcourse : Course digestOf flags signatures position keys state matched after)
    (hempty : ∀ blob ∈ signatures, blob = []) : state = after := by
  cases hcourse with
  | done | few | unreadable => rfl
  | unmatched _ hparse | matched _ hparse =>
      rw [hempty _ List.mem_cons_self, Signature.parse_nil] at hparse
      cases hparse

-- Under the rule a false result takes empty signatures. They need no digest.
theorem signatures_of_eval {source : DigestSource} (hrule : flags.enforces .nullFail = true)
    {machine after : Machine} (heval : eval source flags machine = .ok false after) :
    ∃ operands, popOperands machine = .ok operands after ∧ after.log = machine.log ∧
      operands.signatures ≠ [] ∧ ∀ blob ∈ operands.signatures, blob = [] := by
  obtain ⟨operands, popped, hpop, heval⟩ := run_bind_eq_ok_iff.mp heval
  have hjudged := judged_checkOperands source flags operands popped
  rw [heval] at hjudged
  cases hjudged with
  | matched _ hconcluded =>
      generalize hmatching : matchSignatures source flags operands.signatures operands.keys
        popped.log = matching at hconcluded
      cases hconcluded with
      | failed log hunsatisfied hblobs =>
          have hempty : ∀ blob ∈ operands.signatures, blob = [] := by
            rcases hblobs with hoff | hempty
            · rw [hrule] at hoff
              cases hoff
            · exact hempty
          obtain rfl : log = popped.log := by
            obtain ⟨cache, hcourse, rfl⟩ := matchSignatures_eq_ok_iff.mp hmatching
            exact congrArg DigestCache.log (hcourse.of_empty hempty).symm
          refine ⟨operands, hpop, log_of_popOperands hpop, fun hnil => ?_, hempty⟩
          have hnone : matchSignatures source flags [] operands.keys popped.log =
              .ok ⟨[]⟩ popped.log := rfl
          rw [hnil, hnone] at hmatching
          cases hmatching
          rw [hnil] at hunsatisfied
          cases hunsatisfied

end Multisig

-- With the rule everything is the same but a false result that the rule objects to. What remains
-- false are empty signatures, and operands that a single check can not read.
theorem nullFail_filters (source : DigestSource) (flags : Flags) (machine : Machine) :
    (flags.enforces .nullFail = false →
      NullFailed (Checksig.HasReadable flags machine) (Checksig.eval source flags machine)
        (Checksig.eval source (flags.enable .nullFail) machine) ∧
      NullFailed (Multisig.HasSignature machine) (Multisig.eval source flags machine)
        (Multisig.eval source (flags.enable .nullFail) machine)) ∧
    (flags.enforces .nullFail = true → ∀ after,
      (Multisig.eval source flags machine = .ok false after →
        ∃ operands, Multisig.popOperands machine = .ok operands after ∧
          after.log = machine.log ∧ operands.signatures ≠ [] ∧
          ∀ blob ∈ operands.signatures, blob = []) ∧
      ∀ key blob base, machine.stack.items = key :: blob :: base → blob ≠ [] →
        Checksig.eval source flags machine = .ok false after →
        (∃ fault, PublicKey.decodeUnder flags key = .error fault) ∨
          flags.requiresDer = false ∧ ∃ fault, Der.decode .lax blob.dropLast = .error fault) := by
  refine ⟨fun hrule => ⟨?_, ?_⟩, fun hrule after => ⟨?_, ?_⟩⟩
  · exact Checksig.nullFailed_eval source hrule machine
  · exact Multisig.nullFailed_eval source hrule machine
  · exact Multisig.signatures_of_eval hrule
  · intro key blob base hitems hblob heval
    exact Checksig.unreadable_of_eval hrule hitems hblob heval

-- One signature and its key.
def signedMachine : Machine :=
  ⟨⟨[generatorKey, generatorSignature], true⟩, 0, []⟩

-- One empty signature and one key, with their numbers.
def unsignedMachine : Machine :=
  ⟨⟨[ScriptNum.encode 1, generatorKey, ScriptNum.encode 1, [], []], true⟩, 0, []⟩

-- A digest that `generatorSignature` is no signature of.
def otherDigest : Digest := List.replicate 32 1

-- A signature of another digest becomes an error, an empty one does not.
theorem nullFail_filters_generator :
    NullFailed (Checksig.HasReadable Flags.none signedMachine)
        (Checksig.eval (.constant otherDigest) Flags.none signedMachine)
        (Checksig.eval (.constant otherDigest) (Flags.none.enable .nullFail) signedMachine) ∧
      verdict (Checksig.eval (.constant otherDigest) (Flags.none.enable .nullFail) signedMachine) =
        .error .nullFail ∧
      ∃ operands after, Multisig.popOperands unsignedMachine = .ok operands after ∧
        operands.signatures ≠ [] ∧ ∀ blob ∈ operands.signatures, blob = [] := by
  obtain ⟨hfilters, -⟩ := nullFail_filters (.constant otherDigest) Flags.none signedMachine
  obtain ⟨hfiltered, -⟩ := hfilters rfl
  obtain ⟨-, hremains⟩ :=
    nullFail_filters (.constant otherDigest) (Flags.none.enable .nullFail) unsignedMachine
  have hfalse : verdict (Multisig.eval (.constant otherDigest) (Flags.none.enable .nullFail)
      unsignedMachine) = .ok false := by
    decide +kernel
  obtain ⟨after, heval⟩ := exists_state_of_verdict hfalse
  obtain ⟨operands, hpop, -, hempty⟩ := (hremains rfl after).1 heval
  exact ⟨hfiltered, by decide +kernel, operands, after, hpop, hempty⟩

end SigOps
