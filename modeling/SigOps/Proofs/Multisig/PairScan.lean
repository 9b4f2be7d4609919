import SigOps.Proofs.Ecdsa.Recovery
import SigOps.Proofs.Multisig.Search

namespace SigOps.Multisig

-- Whether the signature verifies under the key, neither of them breaking an enforced rule.
def tryPair (answer : HashType → Digest) (flags : Flags) (blob key : Bytes) :
    Except ScriptError Bool := do
  let outcome ← Signature.parse flags blob
  PublicKey.checkEncoding flags key
  match outcome with
  | .invalid _ => return false
  | .valid signature =>
      match PublicKey.decodeUnder flags key with
      | .error _ => return false
      | .ok publicKey => return Ecdsa.verify publicKey (answer signature.hashType) signature.pair

-- A key that does not match is passed over. The loop stops when there are fewer keys left than
-- signatures.
def scan (answer : HashType → Digest) (flags : Flags) :
    (signatures keys : List Bytes) → Except ScriptError Bool
  | [], _ => .ok true
  | _ :: _, [] => .ok false
  | blob :: later, key :: rest =>
      if rest.length < later.length then .ok false
      else do
        if ← tryPair answer flags blob key then scan answer flags later rest
        else scan answer flags (blob :: later) rest

-- The signature of every turn of the loop.
def visited (answer : HashType → Digest) (flags : Flags) :
    (signatures keys : List Bytes) → List Bytes
  | [], _ => []
  | _ :: _, [] => []
  | blob :: later, key :: rest =>
      if rest.length < later.length then []
      else
        blob :: match tryPair answer flags blob key with
          | .ok true => visited answer flags later rest
          | .ok false => visited answer flags (blob :: later) rest
          | .error _ => []

variable (answer : HashType → Digest) (flags : Flags)

theorem contains_possibleKeys (key : PublicKey) (digest : Digest) (pair : Pair) :
    (Ecdsa.possibleKeys digest pair).contains key = Ecdsa.verify key digest pair := by
  rw [Bool.eq_iff_iff, List.contains_iff_mem, Ecdsa.mem_possibleKeys_iff]

theorem tryPair_valid {blob : Bytes} {signature : Signature}
    (hparse : Signature.parse flags blob = .ok (.valid signature)) (key : Bytes) :
    tryPair answer flags blob key = do
      PublicKey.checkEncoding flags key
      return isCandidate flags
        (Ecdsa.possibleKeys (answer signature.hashType) signature.pair) key := by
  simp only [tryPair, hparse, isCandidate, contains_possibleKeys]
  cases PublicKey.checkEncoding flags key with
  | error fault => rfl
  | ok =>
      cases PublicKey.decodeUnder flags key with
      | error fault => rfl
      | ok publicKey => rfl

theorem tryPair_invalid {blob : Bytes} {reason : Unusable}
    (hparse : Signature.parse flags blob = .ok (.invalid reason)) (key : Bytes) :
    tryPair answer flags blob key = do
      PublicKey.checkEncoding flags key
      return false := by
  simp only [tryPair, hparse]
  rfl

-- For a signature that can be read the loop finds the key that the search finds.
theorem scan_valid {blob : Bytes} {signature : Signature}
    (hparse : Signature.parse flags blob = .ok (.valid signature)) (later : List Bytes)
    (position : Nat) (keys : List Bytes) :
    scan answer flags (blob :: later) keys =
      (do match ← findKey flags (Ecdsa.possibleKeys (answer signature.hashType) signature.pair)
            later.length position keys with
          | none => .ok false
          | some (_, rest) => scan answer flags later rest) := by
  induction keys generalizing position with
  | nil => rfl
  | cons key rest ih =>
      simp only [scan, findKey]
      split
      · rfl
      · rw [tryPair_valid answer flags hparse]
        cases PublicKey.checkEncoding flags key with
        | error fault => rfl
        | ok =>
            cases hcandidate : isCandidate flags
                (Ecdsa.possibleKeys (answer signature.hashType) signature.pair) key with
            | true => rfl
            | false => exact ih (position + 1)

theorem visited_valid {blob : Bytes} {signature : Signature}
    (hparse : Signature.parse flags blob = .ok (.valid signature)) {later : List Bytes}
    {position : Nat} {keys : List Bytes} {found : Nat} {rest : List Bytes}
    (hfind : findKey flags (Ecdsa.possibleKeys (answer signature.hashType) signature.pair)
      later.length position keys = .ok (some (found, rest))) :
    visited answer flags later rest ⊆ visited answer flags (blob :: later) keys := by
  induction keys generalizing position with
  | nil => cases hfind
  | cons key keys ih =>
      by_cases hfew : keys.length < later.length
      · rw [findKey, if_pos hfew] at hfind
        cases hfind
      · rw [findKey, if_neg hfew] at hfind
        obtain ⟨_, hcheck, hfind⟩ := bind_eq_ok_iff.mp hfind
        rw [visited, if_neg hfew, tryPair_valid answer flags hparse, hcheck]
        cases hcandidate : isCandidate flags
            (Ecdsa.possibleKeys (answer signature.hashType) signature.pair) key with
        | true =>
            rw [hcandidate] at hfind
            cases hfind
            exact List.subset_cons_self _ _
        | false =>
            rw [hcandidate] at hfind
            exact List.subset_cons_of_subset _ (ih hfind)

theorem mem_visited {blob : Bytes} {later keys : List Bytes} (hmany : later.length < keys.length) :
    blob ∈ visited answer flags (blob :: later) keys := by
  cases keys with
  | nil => simp at hmany
  | cons key rest =>
      rw [List.length_cons, Nat.lt_succ_iff] at hmany
      rw [visited, if_neg (Nat.not_lt.mpr hmany)]
      exact List.mem_cons_self

-- Rules that a key can break even when no signature is checked under it.
def ChecksKeys (flags : Flags) : Prop :=
  flags.enforces .strictEnc = true ∨ flags.enforces .witnessPubkeyType = true

theorem checksKeys_of_error {key : Bytes} {fault : ScriptError}
    (hcheck : PublicKey.checkEncoding flags key = .error fault) : ChecksKeys flags := by
  by_contra hneither
  simp only [ChecksKeys, not_or, Bool.not_eq_true] at hneither
  simp only [PublicKey.checkEncoding, Flags.whenEnforced, hneither.1, hneither.2] at hcheck
  cases hcheck

theorem scan_invalid {blob : Bytes} {reason : Unusable}
    (hparse : Signature.parse flags blob = .ok (.invalid reason)) (later keys : List Bytes) :
    scan answer flags (blob :: later) keys = .ok false ∨
      (∃ fault, scan answer flags (blob :: later) keys = .error fault) ∧ ChecksKeys flags := by
  induction keys with
  | nil => exact .inl rfl
  | cons key rest ih =>
      simp only [scan]
      split
      · exact .inl rfl
      · rw [tryPair_invalid answer flags hparse]
        cases hcheck : PublicKey.checkEncoding flags key with
        | error fault => exact .inr ⟨⟨fault, rfl⟩, checksKeys_of_error flags hcheck⟩
        | ok => exact ih

-- The loop fails at a key that it tries with a signature that makes no sense.
structure Overrun (signatures keys : List Bytes) : Prop where
  fails : ∃ fault, scan answer flags signatures keys = .error fault
  checksKeys : ChecksKeys flags
  unreadable : ∃ blob ∈ visited answer flags signatures keys, ∃ reason,
    Signature.parse flags blob = .ok (.invalid reason)

theorem scan_few {signatures keys : List Bytes} (hfew : keys.length < signatures.length) :
    scan answer flags signatures keys = .ok false := by
  cases signatures with
  | nil => simp at hfew
  | cons blob later =>
      cases keys with
      | nil => rfl
      | cons key rest =>
          rw [List.length_cons, List.length_cons, Nat.add_lt_add_iff_right] at hfew
          rw [scan, if_pos hfew]

theorem scan_error {blob : Bytes} {fault : ScriptError}
    (hparse : Signature.parse flags blob = .error fault) {later keys : List Bytes}
    (hmany : later.length < keys.length) :
    scan answer flags (blob :: later) keys = .error fault := by
  cases keys with
  | nil => simp at hmany
  | cons key rest =>
      rw [List.length_cons, Nat.lt_succ_iff] at hmany
      rw [scan, if_neg (Nat.not_lt.mpr hmany), tryPair, hparse]
      rfl

theorem Overrun.of_valid {answer : HashType → Digest} {flags : Flags} {blob : Bytes}
    {signature : Signature} (hparse : Signature.parse flags blob = .ok (.valid signature))
    {later keys rest : List Bytes} {position found : Nat}
    (hfind : findKey flags (Ecdsa.possibleKeys (answer signature.hashType) signature.pair)
      later.length position keys = .ok (some (found, rest)))
    (hoverrun : Overrun answer flags later rest) : Overrun answer flags (blob :: later) keys where
  fails := by
    rw [scan_valid answer flags hparse later position, hfind]
    exact hoverrun.fails
  checksKeys := hoverrun.checksKeys
  unreadable := by
    obtain ⟨other, hvisited, hreason⟩ := hoverrun.unreadable
    exact ⟨other, visited_valid answer flags hparse hfind hvisited, hreason⟩

-- The search agrees with the loop, unless it stops before the loop fails.
theorem searchAll_refines_scan (signatures : List Bytes) (position : Nat) (keys : List Bytes) :
    searchAll (.ok <| answer ·) flags signatures position keys =
        scan answer flags signatures keys ∨
      searchAll (.ok <| answer ·) flags signatures position keys = .ok false ∧
        Overrun answer flags signatures keys := by
  induction signatures generalizing position keys with
  | nil =>
      rw [scan]
      exact .inl rfl
  | cons blob later ih =>
      rw [searchAll_cons]
      by_cases hfew : keys.length ≤ later.length
      · rw [if_pos hfew]
        exact .inl (scan_few answer flags (Nat.lt_succ_of_le hfew)).symm
      · rw [if_neg hfew]
        have hmany : later.length < keys.length := Nat.not_le.mp hfew
        cases hparse : Signature.parse flags blob with
        | error fault => exact .inl (scan_error answer flags hparse hmany).symm
        | ok outcome =>
            cases outcome with
            | invalid reason =>
                -- The search ends here. The loop goes on and may meet a key that breaks a rule.
                rcases scan_invalid answer flags hparse later keys with hfalse | ⟨hfails, hrules⟩
                · exact .inl hfalse.symm
                · exact .inr ⟨rfl, hfails, hrules, blob, mem_visited answer flags hmany, reason,
                    hparse⟩
            | valid signature =>
                rw [scan_valid answer flags hparse later position keys]
                simp only [Bind.bind, Except.bind, Except.mapError]
                cases hfind : findKey flags
                    (Ecdsa.possibleKeys (answer signature.hashType) signature.pair) later.length
                    position keys with
                | error fault => exact .inl rfl
                | ok place =>
                    cases place with
                    | none => exact .inl rfl
                    | some place =>
                        obtain ⟨found, rest⟩ := place
                        rcases ih (found + 1) rest with hsame | ⟨hfalse, hoverrun⟩
                        · exact .inl hsame
                        · exact .inr ⟨hfalse, hoverrun.of_valid hparse hfind⟩

-- Matching by recovery is satisfied exactly when the loop is. It gives the same error as the loop
-- unless the loop reaches a signature that makes no sense where keys are checked for themselves.
theorem matchSignatures_refines_scan (answer : HashType → List Bytes → Digest) (flags : Flags)
    (signatures keys : List Bytes) (log : DigestLog) :
    (satisfied (.total answer) flags signatures keys log = .ok true ↔
      scan (answer · signatures) flags signatures keys = .ok true) ∧
    ((flags.enforces .strictEnc = false ∧ flags.enforces .witnessPubkeyType = false) ∨
        (∀ blob ∈ visited (answer · signatures) flags signatures keys,
          ∀ reason, Signature.parse flags blob ≠ .ok (.invalid reason)) →
      satisfied (.total answer) flags signatures keys log =
        scan (answer · signatures) flags signatures keys) := by
  rw [DigestSource.total, satisfied_eq_searchAll]
  rcases searchAll_refines_scan (answer · signatures) flags signatures 0 keys with
    hsame | ⟨hfalse, hoverrun⟩
  · rw [hsame]
    exact ⟨Iff.rfl, fun _ => rfl⟩
  · obtain ⟨fault, hfails⟩ := hoverrun.fails
    rw [hfalse, hfails]
    constructor
    · simp
    · intro hagree
      rcases hagree with ⟨hstrict, hcompressed⟩ | hreadable
      · have hrules := hoverrun.checksKeys
        simp [ChecksKeys, hstrict, hcompressed] at hrules
      · obtain ⟨blob, hvisited, reason, hparse⟩ := hoverrun.unreadable
        exact absurd hparse (hreadable blob hvisited reason)

-- The loop passes over a key that can not be read and finds the one after it.
theorem matchSignatures_refines_scan_generator :
    satisfied (.total fun _ _ => zeroDigest) Flags.none [generatorSignature] [[], generatorKey] [] =
      .ok true := by
  have hscan : scan (fun _ => zeroDigest) Flags.none [generatorSignature] [[], generatorKey] =
      .ok true := by
    decide +kernel
  obtain ⟨-, hequal⟩ := matchSignatures_refines_scan (fun _ _ => zeroDigest) Flags.none
    [generatorSignature] [[], generatorKey] []
  rw [hequal (.inl ⟨rfl, rfl⟩), hscan]

end SigOps.Multisig
