import SigOps.Proofs.Multisig.Search

namespace SigOps.Multisig

-- Why the loop with cursors ends early. A fault is a result of the matching, the rest would be
-- slips.
inductive Halt where
  | fault (fault : ScriptError)
  -- A number is subtracted from a smaller one.
  | underflow
  -- A key is read past the last.
  | outOfBounds
  -- There are too few keys for a signature that is not the first.
  | lateExit
deriving DecidableEq

def subtract (minuend subtrahend : Nat) :
    Except Halt { difference : Nat // difference + subtrahend = minuend } :=
  if hle : subtrahend ≤ minuend then .ok ⟨minuend - subtrahend, Nat.sub_add_cancel hle⟩
  else .error .underflow

def readKey (keys : List Bytes) (index : Nat) : Except Halt Bytes :=
  match keys[index]? with
  | some key => .ok key
  | none => .error .outOfBounds

-- Looks at the keys from `index` on, for as long as more than `reserved` of them are left.
def findFrom (flags : Flags) (candidates : List PublicKey) (keys : List Bytes) (reserved : Nat)
    (index : Nat) : Except Halt (Option Nat) := do
  let ⟨left, hleft⟩ ← subtract keys.length index
  if hfew : left ≤ reserved then .ok none
  else do
    let key ← readKey keys index
    (PublicKey.checkEncoding flags key).mapError .fault
    if isCandidate flags candidates key then .ok (some index)
    else findFrom flags candidates keys reserved (index + 1)
termination_by keys.length - index
decreasing_by omega

variable {α β σ : Type}

def lifted (action : EStateM ScriptError σ α) : EStateM Halt σ α := action.adaptExcept .fault

-- The signatures from number `index` on, with the keys from `nextKey` on.
def matchCursors (digestOf : HashType → EStateM ScriptError σ Digest) (flags : Flags)
    (signatureCount : Nat) (keys : List Bytes) :
    (signatures : List Bytes) → (index nextKey : Nat) → EStateM Halt σ (List (Option Nat))
  | [], _, _ => return []
  | blob :: later, index, nextKey => do
      let ⟨signaturesLeft, _⟩ ← ofExcept (subtract signatureCount index)
      let ⟨keysLeft, _⟩ ← ofExcept (subtract keys.length nextKey)
      if keysLeft < signaturesLeft then
        if index = 0 then return [] else throw .lateExit
      else
        match ← lifted (ofExcept (Signature.parse flags blob)) with
        | .invalid _ => return [none]
        | .valid signature =>
            let digest ← lifted (digestOf signature.hashType)
            let candidates := Ecdsa.possibleKeys digest signature.pair
            let ⟨reserved, _⟩ ← ofExcept (subtract signaturesLeft 1)
            match ← ofExcept (findFrom flags candidates keys reserved nextKey) with
            | none => return [none]
            | some found =>
                let matched ←
                  matchCursors digestOf flags signatureCount keys later (index + 1) (found + 1)
                return some found :: matched

theorem lifted_bind (action : EStateM ScriptError σ α) (next : α → EStateM ScriptError σ β) :
    lifted (action >>= next) = lifted action >>= fun value => lifted (next value) := by
  funext state
  simp only [lifted, Bind.bind, EStateM.bind, EStateM.adaptExcept]
  cases action state with
  | ok value after => rfl
  | error fault after => rfl

theorem lifted_ofExcept (outcome : Except ScriptError α) :
    lifted (ofExcept outcome : EStateM ScriptError σ α) = ofExcept (outcome.mapError .fault) := by
  cases outcome with
  | ok value => rfl
  | error fault => rfl

theorem subtract_of_eq {minuend subtrahend difference : Nat}
    (hsum : difference + subtrahend = minuend) :
    subtract minuend subtrahend = .ok ⟨difference, hsum⟩ := by
  subst hsum
  simp [subtract]

theorem readKey_append (passed : List Bytes) (key : Bytes) (rest : List Bytes) :
    readKey (passed ++ key :: rest) passed.length = .ok key := by
  simp [readKey]

-- The keys that the cursor has passed come first.
theorem findFrom_append (flags : Flags) (candidates : List PublicKey) (reserved : Nat)
    (passed keys : List Bytes) :
    findFrom flags candidates (passed ++ keys) reserved passed.length =
      ((findKey flags candidates reserved passed.length keys).map (Option.map Prod.fst)).mapError
        .fault := by
  have hleft : keys.length + passed.length = (passed ++ keys).length := by
    rw [List.length_append, Nat.add_comm]
  induction keys generalizing passed with
  | nil =>
      rw [findFrom, subtract_of_eq hleft]
      rfl
  | cons key rest ih =>
      rw [findFrom, subtract_of_eq hleft, findKey]
      by_cases hfew : rest.length < reserved
      · rw [if_pos hfew]
        exact dif_pos (Nat.succ_le_of_lt hfew)
      · rw [if_neg hfew]
        refine (dif_neg fun hle => hfew (Nat.lt_of_succ_le hle)).trans ?_
        rw [readKey_append]
        simp only [Bind.bind, Except.bind]
        cases PublicKey.checkEncoding flags key with
        | error fault => rfl
        | ok =>
            by_cases hcandidate : isCandidate flags candidates key = true
            · simp only [Except.mapError, if_pos hcandidate, Except.map, Option.map]
            · have hnext := ih (passed ++ [key]) (by simp; omega)
              rw [List.append_assoc, List.length_append] at hnext
              simp only [Except.mapError, if_neg hcandidate]
              exact hnext

theorem matchCursors_append (digestOf : HashType → EStateM ScriptError σ Digest) (flags : Flags)
    {signatureCount index : Nat} {signatures passed keys : List Bytes}
    (hsignatures : signatures.length + index = signatureCount)
    (hroom : index = 0 ∨ signatures.length ≤ keys.length) :
    matchCursors digestOf flags signatureCount (passed ++ keys) signatures index passed.length =
      lifted (matchFrom digestOf flags signatures passed.length keys) := by
  have hkeys : keys.length + passed.length = (passed ++ keys).length := by
    rw [List.length_append, Nat.add_comm]
  induction signatures generalizing index passed keys with
  | nil => rfl
  | cons blob later ih =>
      rw [matchCursors, subtract_of_eq hsignatures, subtract_of_eq hkeys, matchFrom]
      simp only [ofExcept_ok_bind, List.length_cons]
      by_cases hfew : keys.length ≤ later.length
      · have hfirst : index = 0 := by
          rw [List.length_cons] at hroom
          omega
        rw [if_pos hfew, if_pos (Nat.lt_succ_of_le hfew), if_pos hfirst]
        rfl
      · rw [if_neg hfew, if_neg (by omega), lifted_bind]
        congr 1
        funext outcome
        cases outcome with
        | invalid reason => rfl
        | valid signature =>
            simp only [lifted_bind]
            congr 1
            funext digest
            rw [subtract_of_eq rfl, ofExcept_ok_bind, findFrom_append, lifted_ofExcept]
            cases hfind : findKey flags (Ecdsa.possibleKeys digest signature.pair) later.length
                passed.length keys with
            | error fault => rfl
            | ok place =>
                cases place with
                | none => rfl
                | some place =>
                    obtain ⟨found, rest⟩ := place
                    obtain ⟨skipped, key, rfl, rfl, hreserved, -⟩ := findKey_eq_some hfind
                    have hnext := @ih (index + 1) (passed ++ skipped ++ [key]) rest
                      (by rw [← hsignatures, List.length_cons]; omega) (.inr hreserved)
                      (by simp only [List.length_append]; omega)
                    have hcursor : (passed ++ skipped ++ [key]).length =
                        passed.length + skipped.length + 1 := by
                      simp only [List.length_append, List.length_cons, List.length_nil]
                    rw [hcursor, List.append_assoc, List.append_assoc] at hnext
                    simp only [Except.map, Except.mapError, Option.map, ofExcept_ok_bind,
                      lifted_bind]
                    exact congrArg (· >>= fun matched => pure (some _ :: matched)) hnext

-- The loop with cursors over all signatures and keys.
def matchAll (source : DigestSource) (flags : Flags) (signatures keys : List Bytes) :
    EStateM Halt DigestLog Matches := fun log =>
  match matchCursors (DigestCache.fetch source signatures) flags signatures.length keys signatures 0
      0 ⟨[], log⟩ with
  | .ok matched after => .ok ⟨matched⟩ after.log
  | .error halt after => .error halt after.log

theorem matchAll_eq (source : DigestSource) (flags : Flags) (signatures keys : List Bytes) :
    matchAll source flags signatures keys =
      lifted (matchSignatures source flags signatures keys) := by
  have hcursors : matchCursors (DigestCache.fetch source signatures) flags signatures.length keys
      signatures 0 0 = lifted (matchFrom (DigestCache.fetch source signatures) flags signatures 0
        keys) :=
    @matchCursors_append _ _ flags _ 0 signatures [] keys rfl (.inl rfl)
  funext log
  simp only [matchAll, hcursors, lifted, EStateM.adaptExcept, matchSignatures]
  cases matchFrom (DigestCache.fetch source signatures) flags signatures 0 keys ⟨[], log⟩ with
  | ok matched after => rfl
  | error fault after => rfl

-- The list of matches ends with the first signature that has no key. There is no slip on the way to
-- any result, and an early end is decided before the first signature.
theorem matchSignatures_shape (source : DigestSource) (flags : Flags)
    (signatures keys : List Bytes) :
    matchAll source flags signatures keys = lifted (matchSignatures source flags signatures keys) ∧
    ∀ log,
      (keys.length < signatures.length →
        matchSignatures source flags signatures keys log = .ok ⟨[]⟩ log) ∧
      ∀ matched after, matchSignatures source flags signatures keys log = .ok matched after →
        (signatures.length ≤ keys.length →
          ∃ places, Shape signatures.length keys.length matched.keys places) ∧
        (matched.isSatisfied signatures.length = true ↔
          matched.keys.length = signatures.length ∧ none ∉ matched.keys) := by
  refine ⟨matchAll_eq source flags signatures keys, fun log => ⟨fun hfew => ?_, ?_⟩⟩
  · exact matchSignatures_eq_ok_iff.mpr ⟨⟨[], log⟩, .of_few hfew, rfl⟩
  · intro matched after hmatched
    obtain ⟨cache, hcourse, -⟩ := matchSignatures_eq_ok_iff.mp hmatched
    refine ⟨fun henough => ?_, isSatisfied_iff hcourse.increasing _⟩
    obtain ⟨places, hshape, -⟩ := hcourse.exists_shape henough (Nat.zero_add _)
    exact ⟨places, hshape⟩

-- The first key is found, and a signature that makes no sense ends the list.
theorem matchSignatures_shape_unreadable :
    [generatorSignature, []].length ≤ [generatorKey, generatorKey].length ∧
      (∃ places, Shape 2 2 [some 0, none] places) ∧
      Matches.isSatisfied ⟨[some 0, none]⟩ 2 = false := by
  have hverdict : verdict (matchSignatures (.constant zeroDigest) Flags.none
      [generatorSignature, []] [generatorKey, generatorKey] []) = .ok ⟨[some 0, none]⟩ := by
    decide +kernel
  obtain ⟨-, hresults⟩ := matchSignatures_shape (.constant zeroDigest) Flags.none
    [generatorSignature, []] [generatorKey, generatorKey]
  obtain ⟨-, hshape⟩ := hresults []
  obtain ⟨after, hmatched⟩ := exists_state_of_verdict hverdict
  obtain ⟨hplaces, hsatisfied⟩ := hshape _ _ hmatched
  refine ⟨Nat.le_refl 2, hplaces (Nat.le_refl 2), Bool.eq_false_iff.mpr fun htrue => ?_⟩
  exact absurd (hsatisfied.mp htrue).2 (by simp)

end SigOps.Multisig
