import SigOps.Multisig.Matching
import SigOps.Proofs.Rules.Violation

namespace SigOps.Multisig

variable {fewer more : Flags}

theorem findKey_tightens (hsubset : fewer ⊆ more) (candidates : List PublicKey) (reserved : Nat)
    (position : Nat) (keys : List Bytes) :
    Tightens (Added fewer more) (findKey more candidates reserved position keys)
      (findKey fewer candidates reserved position keys) := by
  induction keys generalizing position with
  | nil => exact .inl rfl
  | cons key rest ih =>
      unfold findKey
      split
      · exact .inl rfl
      · apply Tightens.bind (PublicKey.checkEncoding_tightens hsubset key)
        intro _ hcheck
        have hdecode := PublicKey.decodeUnder_eq_of_checkEncoding hsubset hcheck
        have hsame : isCandidate more candidates key = isCandidate fewer candidates key := by
          unfold isCandidate
          rw [hdecode]
        rw [hsame]
        split
        · exact .inl rfl
        · exact ih (position + 1)

theorem exists_findKey_none (candidates : List PublicKey) (reserved position : Nat)
    (keys : List Bytes) :
    ∃ place, findKey Flags.none candidates reserved position keys = .ok place := by
  induction keys generalizing position with
  | nil => exact ⟨_, rfl⟩
  | cons key rest ih =>
      have hcheck : PublicKey.checkEncoding Flags.none key = .ok () := rfl
      rw [findKey, hcheck]
      split
      · exact ⟨_, rfl⟩
      · simp only [Bind.bind, Except.bind]
        split
        · exact ⟨_, rfl⟩
        · exact ih (position + 1)

theorem rules_of_findKey {flags : Flags} {candidates : List PublicKey}
    {reserved position : Nat} {keys : List Bytes} {fault : ScriptError}
    (hfault : findKey flags candidates reserved position keys = .error fault) : fault.rules ≠ [] :=
  rules_of_tightens (findKey_tightens flags.none_subset candidates reserved position keys)
    (exists_findKey_none candidates reserved position keys) hfault

variable {σ τ : Type} {related : σ → τ → Prop}

theorem matchFrom_lockstep (hsubset : fewer ⊆ more)
    {digestOf : HashType → EStateM ScriptError σ Digest}
    {digestOf' : HashType → EStateM ScriptError τ Digest}
    (hdigest : ∀ hashType,
      Lockstep related (Added fewer more) (digestOf hashType) (digestOf' hashType))
    (signatures : List Bytes) (position : Nat) (keys : List Bytes) :
    Lockstep related (Added fewer more) (matchFrom digestOf more signatures position keys)
      (matchFrom digestOf' fewer signatures position keys) := by
  induction signatures generalizing position keys with
  | nil => exact .pure _
  | cons blob later ih =>
      unfold matchFrom
      split
      · exact .pure _
      · apply Lockstep.check (Signature.parse_tightens hsubset blob)
        intro outcome _
        cases outcome with
        | invalid reason => exact .pure _
        | valid signature =>
            apply Lockstep.bind (hdigest signature.hashType)
            intro digest
            apply Lockstep.check (findKey_tightens hsubset _ later.length position keys)
            intro found _
            cases found with
            | none => exact .pure _
            | some place =>
                obtain ⟨found, rest⟩ := place
                apply Lockstep.bind (ih (found + 1) rest)
                exact fun matched => .pure _

end SigOps.Multisig
