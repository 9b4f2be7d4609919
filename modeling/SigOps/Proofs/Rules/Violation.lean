import SigOps.Proofs.Lockstep
import SigOps.PublicKey
import SigOps.Signature.Blob

namespace SigOps

-- The rules whose violation an error can report. Most errors are raised whatever the rules.
def ScriptError.rules : ScriptError → List Rule
  | .signatureEncoding _ => [.strictEnc, .derSig, .lowS]
  | .highS => [.lowS]
  | .undefinedHashType => [.strictEnc]
  | .pubkeyType => [.strictEnc]
  | .witnessPubkeyType => [.witnessPubkeyType]
  | .nullFail => [.nullFail]
  | .nullDummy _ => [.nullDummy]
  | _ => []

-- One of the rules behind the error is enforced by `more`, and none of them by `fewer`.
def Added (fewer more : Flags) (fault : ScriptError) : Prop :=
  (∃ rule ∈ fault.rules, more.enforces rule = true) ∧
    ∀ rule ∈ fault.rules, fewer.enforces rule = false

theorem not_added_self (flags : Flags) (fault : ScriptError) : ¬Added flags flags fault := by
  rintro ⟨⟨rule, hrule, henforced⟩, hnone⟩
  rw [hnone rule hrule] at henforced
  exact Bool.false_ne_true henforced

variable {fewer more : Flags}

theorem Flags.enforces_eq_false (hsubset : fewer ⊆ more) {rule : Rule}
    (hoff : more.enforces rule = false) : fewer.enforces rule = false := by
  rw [Bool.eq_false_iff] at hoff ⊢
  exact fun hon => hoff (hsubset rule hon)

theorem tightens_whenEnforced (hsubset : fewer ⊆ more) {rule : Rule}
    {check : Except ScriptError Unit}
    (hreports : ∀ fault, check = .error fault → fault.rules = [rule]) :
    Tightens (Added fewer more) (more.whenEnforced rule check) (fewer.whenEnforced rule check) := by
  unfold Flags.whenEnforced
  cases hmore : more.enforces rule with
  | false =>
      rw [Flags.enforces_eq_false hsubset hmore]
      exact .inl rfl
  | true =>
      cases hfewer : fewer.enforces rule with
      | true => exact .inl rfl
      | false =>
          cases hcheck : check with
          | ok => exact .inl rfl
          | error fault =>
              have hrules := hreports fault hcheck
              exact .inr ⟨fault, rfl, by simp [hrules, hmore], by simp [hrules, hfewer]⟩

theorem Flags.none_subset (flags : Flags) : Flags.none ⊆ flags := by
  intro rule hrule
  cases hrule

-- Where the rules are the only cause of errors, every error names one.
theorem rules_of_tightens {α : Type} {flags : Flags} {strict lenient : Except ScriptError α}
    (htightens : Tightens (Added Flags.none flags) strict lenient)
    (hlenient : ∃ value, lenient = .ok value) {fault : ScriptError}
    (hfault : strict = .error fault) : fault.rules ≠ [] := by
  obtain ⟨value, rfl⟩ := hlenient
  rcases htightens with rfl | ⟨_, hstrict, ⟨rule, hrule, -⟩, -⟩
  · cases hfault
  · rw [hfault] at hstrict
    obtain rfl := Except.error.inj hstrict
    exact List.ne_nil_of_mem hrule

-- Most checks test one condition and report one error.
theorem rules_of_test {condition : Prop} [Decidable condition] {reported : ScriptError}
    {rules : List Rule} (hrules : reported.rules = rules) (fault : ScriptError)
    (htest : (if condition then .ok () else .error reported : Except ScriptError Unit) =
      .error fault) : fault.rules = rules := by
  by_cases hcondition : condition
  · rw [if_pos hcondition] at htest
    cases htest
  · rw [if_neg hcondition] at htest
    cases htest
    exact hrules

namespace Signature

theorem checkHashType_reports (blob : Bytes) (fault : ScriptError)
    (hcheck : checkHashType blob = .error fault) : fault.rules = [.strictEnc] := by
  unfold checkHashType at hcheck
  split at hcheck
  · exact rules_of_test rfl fault hcheck
  · cases hcheck
    rfl

theorem checkLowS_reports (pair : Pair) (fault : ScriptError)
    (hcheck : checkLowS pair = .error fault) : fault.rules = [.lowS] :=
  rules_of_test rfl fault hcheck

theorem requiresDer_mono (hsubset : fewer ⊆ more) (hfewer : fewer.requiresDer = true) :
    more.requiresDer = true := by
  simp only [Flags.requiresDer, Bool.or_eq_true] at hfewer ⊢
  exact hfewer.imp (.imp (hsubset _) (hsubset _)) (hsubset _)

theorem checkEncoding_tightens (hsubset : fewer ⊆ more) (blob : Bytes) :
    Tightens (Added fewer more) (checkEncoding more blob) (checkEncoding fewer blob) := by
  unfold checkEncoding
  cases hmore : more.requiresDer with
  | false =>
      have hfewer : fewer.requiresDer = false := by
        rw [Bool.eq_false_iff] at hmore ⊢
        exact fun hon => hmore (requiresDer_mono hsubset hon)
      rw [hfewer]
      exact .inl rfl
  | true =>
      cases hfewer : fewer.requiresDer with
      | true => exact .inl rfl
      | false =>
          cases Encoding.check blob with
          | ok => exact .inl rfl
          | error fault =>
              simp only [Flags.requiresDer, Bool.or_eq_true, Bool.or_eq_false_iff] at hmore hfewer
              refine .inr ⟨.signatureEncoding fault, rfl, ?_, ?_⟩
              · simpa [ScriptError.rules, or_assoc] using hmore
              · simpa [ScriptError.rules, and_assoc] using hfewer

theorem parse_tightens (hsubset : fewer ⊆ more) (blob : Bytes) :
    Tightens (Added fewer more) (parse more blob) (parse fewer blob) := by
  unfold parse
  split
  · exact .inl rfl
  · apply Tightens.bind (checkEncoding_tightens hsubset blob)
    rintro - -
    apply Tightens.bind (tightens_whenEnforced hsubset (checkHashType_reports blob))
    rintro - -
    split
    · exact .inl rfl
    · rename_i pair hdecode
      apply Tightens.bind (tightens_whenEnforced hsubset (checkLowS_reports pair))
      rintro - -
      exact .inl rfl

-- Without rules every signature can be looked at.
theorem exists_parse_none (blob : Bytes) :
    ∃ outcome, parse Flags.none blob = .ok outcome := by
  unfold parse
  cases HashType.ofSignature? blob with
  | none => exact ⟨_, rfl⟩
  | some hashType =>
      simp only [checkEncoding, Flags.requiresDer, Flags.none, Flags.whenEnforced]
      cases Der.decode .lax blob.dropLast with
      | error fault => exact ⟨_, rfl⟩
      | ok pair => exact ⟨_, rfl⟩

theorem rules_of_parse {flags : Flags} {blob : Bytes} {fault : ScriptError}
    (hfault : parse flags blob = .error fault) : fault.rules ≠ [] :=
  rules_of_tightens (parse_tightens flags.none_subset blob) (exists_parse_none blob) hfault

end Signature

namespace PublicKey

theorem checkStrict_reports (key : Bytes) (fault : ScriptError)
    (hcheck : checkStrict key = .error fault) : fault.rules = [.strictEnc] :=
  rules_of_test rfl fault hcheck

theorem checkCompressed_reports (key : Bytes) (fault : ScriptError)
    (hcheck : checkCompressed key = .error fault) : fault.rules = [.witnessPubkeyType] :=
  rules_of_test rfl fault hcheck

theorem checkEncoding_tightens (hsubset : fewer ⊆ more) (key : Bytes) :
    Tightens (Added fewer more) (checkEncoding more key) (checkEncoding fewer key) := by
  apply Tightens.bind (tightens_whenEnforced hsubset (checkStrict_reports key))
  rintro - -
  exact tightens_whenEnforced hsubset (checkCompressed_reports key)

theorem isStrict_of_checkEncoding {flags : Flags} {key : Bytes}
    (hstrict : flags.enforces .strictEnc = true)
    (hcheck : checkEncoding flags key = .ok ()) : isStrict key = true := by
  by_cases hkey : isStrict key = true
  · exact hkey
  · simp only [checkEncoding, Flags.whenEnforced, hstrict, if_true, checkStrict, if_neg hkey]
      at hcheck
    cases hcheck

-- A strict key is read the same way whether or not it has to be strict.
theorem decodeUnder_eq_of_checkEncoding (hsubset : fewer ⊆ more) {key : Bytes}
    (hcheck : checkEncoding more key = .ok ()) : decodeUnder more key = decodeUnder fewer key := by
  unfold decodeUnder decode
  cases hmore : more.enforces .strictEnc with
  | false => rw [Flags.enforces_eq_false hsubset hmore]
  | true => simp [isStrict_of_checkEncoding hmore hcheck]

end PublicKey

end SigOps
