import SigOps.Proofs.Multisig.Lockstep
import SigOps.Proofs.Multisig.Shape

namespace SigOps

-- Requests made before do not change the answer.
def DigestSource.stateless (answer : HashType → List Bytes → Except DigestError Digest) :
    DigestSource := fun _ => answer

-- A source that never fails.
def DigestSource.total (answer : HashType → List Bytes → Digest) : DigestSource :=
  .stateless fun hashType signatures => .ok (answer hashType signatures)

namespace Multisig

-- A digest action that keeps nothing.
def answered (answer : HashType → Except DigestError Digest) (hashType : HashType) :
    EStateM ScriptError Unit Digest := ofExcept ((answer hashType).mapError .digest)

-- The search with digests from a function.
def search (answer : HashType → Except DigestError Digest) (flags : Flags)
    (signatures : List Bytes) (position : Nat) (keys : List Bytes) :
    Except ScriptError (List (Option Nat)) :=
  verdict (matchFrom (answered answer) flags signatures position keys ())

section Unfolding

variable (answer : HashType → Except DigestError Digest) (flags : Flags)

theorem search_cons (blob : Bytes) (later : List Bytes) (position : Nat) (keys : List Bytes) :
    search answer flags (blob :: later) position keys =
      (if keys.length ≤ later.length then .ok []
      else do
        match ← Signature.parse flags blob with
        | .invalid _ => .ok [none]
        | .valid signature =>
            let digest ← (answer signature.hashType).mapError ScriptError.digest
            let candidates := Ecdsa.possibleKeys digest signature.pair
            match ← findKey flags candidates later.length position keys with
            | none => .ok [none]
            | some (found, rest) =>
                let matched ← search answer flags later (found + 1) rest
                .ok (some found :: matched)) := by
  simp only [search, matchFrom]
  split
  · rfl
  · rw [verdict_bind, verdict_ofExcept]
    congr 1
    funext outcome
    cases outcome with
    | invalid reason => rfl
    | valid signature =>
        simp only []
        rw [verdict_bind, answered, verdict_ofExcept]
        congr 1
        funext digest
        rw [verdict_bind, verdict_ofExcept]
        congr 1
        funext place
        cases place with
        | none => rfl
        | some place => exact verdict_bind _ _

end Unfolding

namespace DigestCache

-- What is kept is what the source answers.
def Sound (answer : HashType → Except DigestError Digest) (entries : List (HashType × Digest)) :
    Prop :=
  ∀ hashType digest, entries.lookup hashType = some digest → answer hashType = .ok digest

theorem Sound.insert {answer : HashType → Except DigestError Digest}
    {entries : List (HashType × Digest)} (hsound : Sound answer entries) {log : DigestLog}
    {hashType : HashType} {digest : Digest} (hanswer : answer hashType = .ok digest) :
    Sound answer (DigestCache.insert hashType digest ⟨entries, log⟩).entries := by
  simp only [DigestCache.insert]
  split
  · intro other found hlookup
    rw [List.lookup_append] at hlookup
    cases hold : entries.lookup other with
    | none =>
        simp only [hold, Option.none_or, List.lookup_cons, List.lookup_nil] at hlookup
        split at hlookup
        · rename_i hsame
          obtain rfl := eq_of_beq hsame
          obtain rfl := Option.some.inj hlookup
          exact hanswer
        · cases hlookup
    | some kept =>
        simp only [hold, Option.some_or] at hlookup
        exact hsound other found (hold.trans hlookup)
  · exact hsound

theorem fetch_lockstep {source : DigestSource} {signatures : List Bytes}
    {answer : HashType → Except DigestError Digest}
    (hsource : ∀ log hashType, source log hashType signatures = answer hashType)
    (hashType : HashType) {excused : ScriptError → Prop} :
    Lockstep (fun cache _ => Sound answer cache.entries) excused (fetch source signatures hashType)
      (answered answer hashType) := by
  intro cache _ hsound
  simp only [fetch, answered]
  cases hlookup : cache.entries.lookup hashType with
  | some digest =>
      rw [hsound hashType digest hlookup]
      exact .ok digest hsound
  | none =>
      simp only [DigestSource.request, DigestSource.ask, hsource]
      cases hanswer : answer hashType with
      | ok digest => exact .ok digest (Sound.insert hsound hanswer)
      | error fault => exact .error _ hsound

end DigestCache

-- The cache makes no difference when the digest depends on the hash type only.
theorem verdict_matchSignatures (answer : HashType → List Bytes → Except DigestError Digest)
    (flags : Flags) (signatures keys : List Bytes) (log : DigestLog) :
    verdict (matchSignatures (.stateless answer) flags signatures keys log) =
      (search (answer · signatures) flags signatures 0 keys).map Matches.mk := by
  have hdigest (hashType : HashType) :
      Lockstep (fun cache _ => DigestCache.Sound (answer · signatures) cache.entries)
        (Added flags flags)
        (DigestCache.fetch (.stateless answer) signatures hashType)
        (answered (answer · signatures) hashType) :=
    DigestCache.fetch_lockstep (fun _ _ => rfl) hashType
  have hempty : DigestCache.Sound (answer · signatures) [] := by
    intro hashType digest hlookup
    cases hlookup
  have hagree := matchFrom_lockstep (fun _ => id) hdigest signatures 0 keys ⟨[], log⟩ () hempty
  rw [search, ← hagree.verdict_eq (not_added_self flags), matchSignatures]
  cases matchFrom (DigestCache.fetch (.stateless answer) signatures) flags signatures 0 keys
      ⟨[], log⟩ with
  | ok matched after => rfl
  | error fault after => rfl

-- What one turn of a search that does not fail can find, and in which case.
inductive Turn (answer : HashType → Except DigestError Digest) (flags : Flags) (blob : Bytes)
    (later : List Bytes) (position : Nat) (keys : List Bytes) : List (Option Nat) → Prop where
  | few (hfew : keys.length ≤ later.length) : Turn answer flags blob later position keys []
  | unreadable (hmany : later.length < keys.length) {reason : Unusable}
      (hparse : Signature.parse flags blob = .ok (.invalid reason)) :
      Turn answer flags blob later position keys [none]
  | unmatched (hmany : later.length < keys.length) {signature : Signature} {digest : Digest}
      (hparse : Signature.parse flags blob = .ok (.valid signature))
      (hanswer : answer signature.hashType = .ok digest)
      (hfind : findKey flags (Ecdsa.possibleKeys digest signature.pair) later.length position keys =
        .ok none) :
      Turn answer flags blob later position keys [none]
  | matched (hmany : later.length < keys.length) {signature : Signature} {digest : Digest}
      {found : Nat} {rest : List Bytes} {tail : List (Option Nat)}
      (hparse : Signature.parse flags blob = .ok (.valid signature))
      (hanswer : answer signature.hashType = .ok digest)
      (hfind : findKey flags (Ecdsa.possibleKeys digest signature.pair) later.length position keys =
        .ok (some (found, rest)))
      (htail : search answer flags later (found + 1) rest = .ok tail) :
      Turn answer flags blob later position keys (some found :: tail)

theorem turn_of_search {answer : HashType → Except DigestError Digest} {flags : Flags}
    {blob : Bytes} {later : List Bytes} {position : Nat} {keys : List Bytes}
    {matched : List (Option Nat)}
    (hsearch : search answer flags (blob :: later) position keys = .ok matched) :
    Turn answer flags blob later position keys matched := by
  have hanswer {hashType : HashType} {digest : Digest} {state after : Unit}
      (hdigest : answered answer hashType state = .ok digest after) :
      answer hashType = .ok digest :=
    mapError_eq_ok_iff.mp (run_ofExcept_eq_ok_iff.mp hdigest).1
  obtain ⟨_, hrun⟩ := exists_state_of_verdict hsearch
  cases course_of_matchFrom hrun with
  | few hfew => exact .few hfew
  | unreadable hmany hparse => exact .unreadable hmany hparse
  | unmatched hmany hparse hdigest hfind => exact .unmatched hmany hparse (hanswer hdigest) hfind
  | matched hmany hparse hdigest hfind htail =>
      exact .matched hmany hparse (hanswer hdigest) hfind (congrArg verdict htail.matchFrom_eq)

-- Every signature has a key. The order of the keys is not compared.
def complete (count : Nat) (matched : List (Option Nat)) : Bool :=
  matched.length == count && matched.all Option.isSome

theorem isSatisfied_eq_complete {answer : HashType → Except DigestError Digest} {flags : Flags}
    {signatures : List Bytes} {position : Nat} {keys : List Bytes} {matched : List (Option Nat)}
    (hsearch : search answer flags signatures position keys = .ok matched) (count : Nat) :
    Matches.isSatisfied ⟨matched⟩ count = complete count matched := by
  obtain ⟨_, hrun⟩ := exists_state_of_verdict hsearch
  have hincreasing := (increasing_iff _).mpr (course_of_matchFrom hrun).increasing
  simp only [Matches.isSatisfied, complete, hincreasing, Bool.and_true]

theorem complete_none (count : Nat) : complete count [none] = false := by
  simp [complete]

theorem complete_some (count found : Nat) (matched : List (Option Nat)) :
    complete (count + 1) (some found :: matched) = complete count matched := by
  simp [complete]

-- Whether the search finds a key for every signature.
def searchAll (answer : HashType → Except DigestError Digest) (flags : Flags)
    (signatures : List Bytes) (position : Nat) (keys : List Bytes) : Except ScriptError Bool :=
  (search answer flags signatures position keys).map (complete signatures.length)

theorem searchAll_cons (answer : HashType → Except DigestError Digest) (flags : Flags)
    (blob : Bytes) (later : List Bytes) (position : Nat) (keys : List Bytes) :
    searchAll answer flags (blob :: later) position keys =
      (if keys.length ≤ later.length then .ok false
      else do
        match ← Signature.parse flags blob with
        | .invalid _ => .ok false
        | .valid signature =>
            let digest ← (answer signature.hashType).mapError ScriptError.digest
            let candidates := Ecdsa.possibleKeys digest signature.pair
            match ← findKey flags candidates later.length position keys with
            | none => .ok false
            | some (found, rest) => searchAll answer flags later (found + 1) rest) := by
  rw [searchAll, search_cons]
  split
  · rfl
  · rw [map_bind]
    congr 1
    funext outcome
    cases outcome with
    | invalid reason => exact congrArg Except.ok (complete_none _)
    | valid signature =>
        simp only [map_bind]
        congr 1
        funext digest
        congr 1
        funext place
        cases place with
        | none => exact congrArg Except.ok (complete_none _)
        | some place =>
            obtain ⟨found, rest⟩ := place
            simp only [map_bind, searchAll]
            cases search answer flags later (found + 1) rest with
            | error fault => rfl
            | ok tail => exact congrArg Except.ok (complete_some _ _ _)

-- Whether the matching of a source satisfies all the signatures.
def satisfied (source : DigestSource) (flags : Flags) (signatures keys : List Bytes)
    (log : DigestLog) : Except ScriptError Bool :=
  (verdict (matchSignatures source flags signatures keys log)).map
    (·.isSatisfied signatures.length)

theorem satisfied_eq_searchAll (answer : HashType → List Bytes → Except DigestError Digest)
    (flags : Flags) (signatures keys : List Bytes) (log : DigestLog) :
    satisfied (.stateless answer) flags signatures keys log =
      searchAll (answer · signatures) flags signatures 0 keys := by
  rw [satisfied, verdict_matchSignatures, searchAll]
  cases hsearch : search (answer · signatures) flags signatures 0 keys with
  | error fault => rfl
  | ok matched => simp only [Except.map, isSatisfied_eq_complete hsearch]

end Multisig

end SigOps
