import SigOps.Checksig
import SigOps.Proofs.Machine
import SigOps.Proofs.Multisig.Search

namespace SigOps

-- The action ends the same way whatever state it starts from.
def Yields {ε σ α : Type} (action : EStateM ε σ α) (outcome : Except ε α) : Prop :=
  ∀ state, verdict (action state) = outcome

namespace Yields

variable {α β ε σ : Type}

theorem pure (value : α) : Yields (σ := σ) (ε := ε) (Pure.pure value) (.ok value) :=
  fun _ => rfl

theorem ofExcept (outcome : Except ε α) :
    Yields (ofExcept outcome : EStateM ε σ α) outcome := by
  intro state
  cases outcome with
  | ok value => rfl
  | error fault => rfl

theorem bind {action : EStateM ε σ α} {outcome : Except ε α} {next : α → EStateM ε σ β}
    {nextOutcome : α → Except ε β} (haction : Yields action outcome)
    (hnext : ∀ value, Yields (next value) (nextOutcome value)) :
    Yields (action >>= next) (outcome >>= nextOutcome) := by
  intro state
  have houtcome := haction state
  cases hresult : action state with
  | ok value after =>
      rw [hresult] at houtcome
      rw [bind_of_ok hresult, hnext value after, ← houtcome]
      rfl
  | error fault after =>
      rw [hresult] at houtcome
      rw [bind_of_error hresult, ← houtcome]
      rfl

theorem request (answer : HashType → List Bytes → Except DigestError Digest) (hashType : HashType)
    (signatures : List Bytes) :
    Yields (DigestSource.request (.stateless answer) hashType signatures)
      ((answer hashType signatures).mapError .digest) := by
  intro log
  simp only [DigestSource.request, DigestSource.ask, DigestSource.stateless]
  cases answer hashType signatures with
  | ok digest => rfl
  | error fault => rfl

end Yields

namespace Checksig

theorem eval_cases (source : DigestSource) (flags : Flags) (machine : Machine) :
    (machine.stack.height < 2 ∧ eval source flags machine =
      .error (.stack .underflow) (machine.advance 2 0)) ∨
    ∃ blob key, machine.stack.items = key :: blob :: (machine.stack.drop 2).items ∧
      eval source flags machine =
        Machine.onLog (checkSignature source flags blob key) (machine.advance 2 0) := by
  rcases Machine.pop_cases machine with ⟨hempty, hpop⟩ | ⟨key, hkey, hpop⟩
  · rw [Machine.advance_of_height_le (Nat.le_of_lt hempty) (by omega : _ ≤ 2)] at hpop
    exact .inl ⟨by omega, bind_of_error hpop⟩
  · have hsecond := Machine.pop_cases (machine.advance 1 0)
    rw [Machine.advance_advance, Machine.advance_stack, Stack.drop_drop, Stack.height_drop]
      at hsecond
    rw [eval, bind_of_ok hpop]
    rcases hsecond with ⟨hempty, hpop⟩ | ⟨blob, hblob, hpop⟩
    · exact .inl ⟨by omega, bind_of_error hpop⟩
    · rw [hblob] at hkey
      exact .inr ⟨blob, key, hkey, bind_of_ok hpop⟩

theorem eval_of_items {machine : Machine} {blob key : Bytes} {base : List Bytes}
    (hitems : machine.stack.items = key :: blob :: base) (source : DigestSource) (flags : Flags) :
    eval source flags machine =
      Machine.onLog (checkSignature source flags blob key) (machine.advance 2 0) := by
  rcases eval_cases source flags machine with ⟨hfew, -⟩ | ⟨blob', key', hitems', heval⟩
  · rw [Stack.height, hitems] at hfew
    exact absurd hfew (by simp)
  · rw [hitems] at hitems'
    obtain ⟨rfl, hrest⟩ := List.cons.inj hitems'
    obtain ⟨rfl, -⟩ := List.cons.inj hrest
    exact heval

-- The check with digests from a function.
def verified (answer : HashType → Except DigestError Digest) (flags : Flags) (blob key : Bytes) :
    Except ScriptError (Outcome Bool) := do
  match ← Signature.parse flags blob with
  | .invalid reason => return .invalid reason
  | .valid signature =>
      match PublicKey.decodeUnder flags key with
      | .error fault => return .invalid (.publicKey fault)
      | .ok publicKey =>
          let digest ← (answer signature.hashType).mapError ScriptError.digest
          return .valid (Ecdsa.verify publicKey digest signature.pair)

def checked (answer : HashType → Except DigestError Digest) (flags : Flags) (blob key : Bytes) :
    Except ScriptError Bool := do
  PublicKey.checkEncoding flags key
  match ← verified answer flags blob key with
  | .invalid _ => return false
  | .valid success =>
      flags.whenEnforced .nullFail (checkNullFail success blob)
      return success

section Yielding

variable (answer : HashType → List Bytes → Except DigestError Digest) (flags : Flags)
  (blob key : Bytes)

theorem yields_verifySignature :
    Yields (verifySignature (.stateless answer) flags blob key)
      (verified (answer · [blob]) flags blob key) := by
  apply (Yields.ofExcept _).bind
  intro outcome
  cases outcome with
  | invalid reason => exact .pure _
  | valid signature =>
      simp only []
      cases PublicKey.decodeUnder flags key with
      | error fault => exact .pure _
      | ok publicKey => exact (Yields.request _ _ _).bind fun _ => .pure _

theorem yields_checkSignature :
    Yields (checkSignature (.stateless answer) flags blob key)
      (checked (answer · [blob]) flags blob key) := by
  apply (Yields.ofExcept _).bind
  intro _
  apply (yields_verifySignature answer flags blob key).bind
  intro outcome
  cases outcome with
  | invalid reason => exact .pure _
  | valid success => exact (Yields.ofExcept _).bind fun _ => .pure _

end Yielding

theorem verdict_eval {machine : Machine} {blob key : Bytes} {base : List Bytes}
    (hitems : machine.stack.items = key :: blob :: base)
    (answer : HashType → List Bytes → Except DigestError Digest) (flags : Flags) :
    verdict (eval (.stateless answer) flags machine) =
      checked (answer · [blob]) flags blob key := by
  rw [eval_of_items hitems, Machine.verdict_onLog, yields_checkSignature answer flags blob key]

-- Without rules nothing but a missing digest can abort the check.
theorem exists_checked_none (digestOf : HashType → Digest) (blob key : Bytes) :
    ∃ success, checked (fun hashType => .ok (digestOf hashType)) Flags.none blob key =
      .ok success := by
  obtain ⟨outcome, hparse⟩ := Signature.exists_parse_none blob
  simp only [checked, verified, hparse]
  cases outcome with
  | invalid reason => exact ⟨false, rfl⟩
  | valid signature =>
      cases PublicKey.decodeUnder Flags.none key with
      | error fault => exact ⟨false, rfl⟩
      | ok publicKey => exact ⟨_, rfl⟩

end Checksig

end SigOps
