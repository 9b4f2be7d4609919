import SigOps.Proofs.Machine
import SigOps.Proofs.Rules.Opcodes

namespace SigOps

-- The errors that checks of signatures and keys can raise: violations of rules and failures of the
-- source of digests.
def ScriptError.IsFinding (fault : ScriptError) : Prop :=
  fault.rules ≠ [] ∨ ∃ cause, fault = .digest cause

theorem ScriptError.IsFinding.of_rules {fault : ScriptError} {rule : Rule}
    (hrules : fault.rules = [rule]) : fault.IsFinding :=
  .inl (by rw [hrules]; exact List.cons_ne_nil _ _)

variable {α β ε σ : Type} {allowed : ε → Prop}

-- Every error of a check is allowed.
def Reports (allowed : ε → Prop) (result : Except ε α) : Prop :=
  ∀ fault, result = .error fault → allowed fault

-- Every error of an action is allowed, whatever state it starts from.
def Raises (allowed : ε → Prop) (action : EStateM ε σ α) : Prop :=
  ∀ state fault after, action state = .error fault after → allowed fault

namespace Reports

theorem ok (value : α) : Reports allowed (.ok value) := by
  intro fault hfault
  cases hfault

theorem bind {first : Except ε α} {next : α → Except ε β} (hfirst : Reports allowed first)
    (hnext : ∀ value, Reports allowed (next value)) : Reports allowed (first >>= next) := by
  cases first with
  | ok value => exact hnext value
  | error cause =>
      intro fault hfault
      cases hfault
      exact hfirst cause rfl

theorem whenEnforced {flags : Flags} {rule : Rule} {check : Except ScriptError Unit}
    (hrules : ∀ fault, check = .error fault → fault.rules = [rule]) :
    Reports ScriptError.IsFinding (flags.whenEnforced rule check) := by
  unfold Flags.whenEnforced
  split
  · exact fun fault hfault => .of_rules (hrules fault hfault)
  · exact .ok ()

end Reports

namespace Raises

theorem pure (value : α) : Raises (σ := σ) allowed (Pure.pure value) := by
  intro state fault after hfault
  cases hfault

theorem bind {first : EStateM ε σ α} {next : α → EStateM ε σ β} (hfirst : Raises allowed first)
    (hnext : ∀ value, Raises allowed (next value)) : Raises allowed (first >>= next) := by
  intro state fault after hfault
  simp only [Bind.bind, EStateM.bind] at hfault
  cases hresult : first state with
  | ok value middle =>
      rw [hresult] at hfault
      exact hnext value middle fault after hfault
  | error cause middle =>
      rw [hresult] at hfault
      cases hfault
      exact hfirst state fault after hresult

theorem check {result : Except ε α} {next : α → EStateM ε σ β} (hresult : Reports allowed result)
    (hnext : ∀ value, Raises allowed (next value)) :
    Raises allowed (ofExcept result >>= next) := by
  cases result with
  | ok value => exact hnext value
  | error cause =>
      intro state fault after hfault
      cases hfault
      exact hresult cause rfl

theorem verdict_onLog {action : LogM α} {allowed : ScriptError → Prop}
    (haction : Raises allowed action) (machine : Machine) :
    Reports allowed (verdict (Machine.onLog action machine)) := by
  intro fault hfault
  rw [Machine.verdict_onLog] at hfault
  cases hresult : action machine.log with
  | ok value log =>
      rw [hresult] at hfault
      cases hfault
  | error cause log =>
      rw [hresult] at hfault
      cases hfault
      exact haction machine.log fault log hresult

end Raises

theorem Signature.parse_finding (flags : Flags) (blob : Bytes) :
    Reports ScriptError.IsFinding (parse flags blob) :=
  fun _ hfault => .inl (rules_of_parse hfault)

theorem PublicKey.checkEncoding_finding (flags : Flags) (key : Bytes) :
    Reports ScriptError.IsFinding (checkEncoding flags key) :=
  Reports.bind (.whenEnforced (checkStrict_reports key))
    fun _ => .whenEnforced (checkCompressed_reports key)

theorem DigestSource.request_finding (source : DigestSource) (hashType : HashType)
    (signatures : List Bytes) :
    Raises ScriptError.IsFinding (source.request hashType signatures) := by
  intro log fault after hfault
  unfold request at hfault
  split at hfault
  · cases hfault
  · cases hfault
    exact .inr ⟨_, rfl⟩

namespace Checksig

variable (source : DigestSource) (flags : Flags)

theorem checkNullFail_finding (success : Bool) (blob : Bytes) :
    Reports ScriptError.IsFinding (flags.whenEnforced .nullFail (checkNullFail success blob)) :=
  .whenEnforced (checkNullFail_reports success blob)

theorem verifySignature_finding (blob key : Bytes) :
    Raises ScriptError.IsFinding (verifySignature source flags blob key) := by
  apply Raises.check (Signature.parse_finding flags blob)
  intro outcome
  cases outcome with
  | invalid reason => exact .pure _
  | valid signature =>
      simp only []
      split
      · exact .pure _
      · exact (source.request_finding signature.hashType [blob]).bind fun _ => .pure _

theorem checkSignature_finding (blob key : Bytes) :
    Raises ScriptError.IsFinding (checkSignature source flags blob key) := by
  apply Raises.check (PublicKey.checkEncoding_finding flags key)
  intro _
  apply (verifySignature_finding source flags blob key).bind
  intro outcome
  cases outcome with
  | invalid reason => exact .pure _
  | valid success =>
      exact Raises.check (checkNullFail_finding flags success blob) fun _ => .pure _

end Checksig

namespace Multisig

variable (source : DigestSource) (flags : Flags)

theorem fetch_finding (signatures : List Bytes) (hashType : HashType) :
    Raises ScriptError.IsFinding (DigestCache.fetch source signatures hashType) := by
  intro cache fault after hfault
  unfold DigestCache.fetch at hfault
  split at hfault
  · cases hfault
  · split at hfault
    · cases hfault
    · rename_i hrequest
      cases hfault
      exact source.request_finding hashType signatures _ _ _ hrequest

theorem findKey_finding (candidates : List PublicKey) (reserved position : Nat)
    (keys : List Bytes) :
    Reports ScriptError.IsFinding (findKey flags candidates reserved position keys) :=
  fun _ hfault => .inl (rules_of_findKey hfault)

theorem matchFrom_finding {digestOf : HashType → EStateM ScriptError σ Digest}
    (hdigest : ∀ hashType, Raises ScriptError.IsFinding (digestOf hashType))
    (signatures : List Bytes) (position : Nat) (keys : List Bytes) :
    Raises ScriptError.IsFinding (matchFrom digestOf flags signatures position keys) := by
  induction signatures generalizing position keys with
  | nil => exact .pure _
  | cons blob later ih =>
      unfold matchFrom
      split
      · exact .pure _
      · apply Raises.check (Signature.parse_finding flags blob)
        intro outcome
        cases outcome with
        | invalid reason => exact .pure _
        | valid signature =>
            apply (hdigest signature.hashType).bind
            intro digest
            apply Raises.check (findKey_finding flags _ later.length position keys)
            intro place
            cases place with
            | none => exact .pure _
            | some place => exact (ih (place.1 + 1) place.2).bind fun _ => .pure _

theorem matchSignatures_finding (signatures keys : List Bytes) :
    Raises ScriptError.IsFinding (matchSignatures source flags signatures keys) := by
  intro log fault after hfault
  unfold matchSignatures at hfault
  split at hfault
  · cases hfault
  · rename_i hmatch
    cases hfault
    exact matchFrom_finding flags (fetch_finding source signatures) _ _ _ _ _ _ hmatch

theorem checkNullDummy_finding (dummy : Bytes) :
    Reports ScriptError.IsFinding (flags.whenEnforced .nullDummy (checkNullDummy dummy)) :=
  .whenEnforced (checkNullDummy_reports dummy)

theorem checkNullFail_finding (success : Bool) (signatures : List Bytes) :
    Reports ScriptError.IsFinding
      (flags.whenEnforced .nullFail (checkNullFail success signatures)) :=
  .whenEnforced (checkNullFail_reports success signatures)

theorem checkOperands_finding (operands : Operands) :
    Raises ScriptError.IsFinding (checkOperands source flags operands) := by
  apply Raises.check (checkNullDummy_finding flags operands.dummy)
  intro _
  apply (matchSignatures_finding source flags operands.signatures operands.keys).bind
  intro matched
  exact Raises.check (checkNullFail_finding flags _ _) fun _ => .pure _

end Multisig

end SigOps
