import SigOps.Proofs.Multisig.Cache
import SigOps.Proofs.Multisig.Search
import SigOps.Proofs.Signature.Blob

namespace SigOps

section Judgement

variable {α β ε σ : Type} {before middle kept : σ → Prop} {broken : ε → σ → Prop}

inductive Ends (kept : σ → Prop) (broken : ε → σ → Prop) : EStateM.Result ε σ α → Prop where
  | ok {value : α} {after : σ} (hkept : kept after) : Ends kept broken (.ok value after)
  | error {fault : ε} {after : σ} (hbroken : broken fault after) :
      Ends kept broken (.error fault after)

-- What holds before the action is carried over to the state that it ends in.
def Ensures (before kept : σ → Prop) (broken : ε → σ → Prop) (action : EStateM ε σ α) : Prop :=
  ∀ state, before state → Ends kept broken (action state)

namespace Ensures

theorem pure (hkept : ∀ state, before state → kept state) (value : α) :
    Ensures before kept broken (Pure.pure value) :=
  fun state hbefore => .ok (hkept state hbefore)

theorem bind {action : EStateM ε σ α} {next : α → EStateM ε σ β}
    (haction : Ensures before middle broken action)
    (hnext : ∀ value, Ensures middle kept broken (next value)) :
    Ensures before kept broken (action >>= next) := by
  intro state hbefore
  have hends := haction state hbefore
  simp only [Bind.bind, EStateM.bind]
  generalize action state = result at hends
  cases hends with
  | ok hmiddle => exact hnext _ _ hmiddle
  | error hbroken => exact .error hbroken

theorem check {outcome : Except ε α} {next : α → EStateM ε σ β}
    (hfault : ∀ fault, outcome = .error fault → ∀ state, before state → broken fault state)
    (hnext : ∀ value, outcome = .ok value → Ensures before kept broken (next value)) :
    Ensures before kept broken (ofExcept outcome >>= next) := by
  cases outcome with
  | ok value => exact hnext value rfl
  | error fault => exact fun state hbefore => .error (hfault fault rfl state hbefore)

end Ensures

end Judgement

namespace Multisig

-- Requests to a source that follow on those of a log. After an error nothing is requested.
inductive Dialogue (source : DigestSource) (signatures : List Bytes) (log : DigestLog) :
    List DigestRequest → Option DigestError → Prop where
  | start : Dialogue source signatures log [] none
  | answered {requests : List DigestRequest} {hashType : HashType} {digest : Digest}
      (hbefore : Dialogue source signatures log requests none)
      (hanswer : source (log ++ requests) hashType signatures = .ok digest) :
      Dialogue source signatures log (requests ++ [⟨hashType, signatures, .ok digest⟩]) none
  | failed {requests : List DigestRequest} {hashType : HashType} {cause : DigestError}
      (hbefore : Dialogue source signatures log requests none)
      (hanswer : source (log ++ requests) hashType signatures = .error cause) :
      Dialogue source signatures log (requests ++ [⟨hashType, signatures, .error cause⟩])
        (some cause)

section Recording

variable {ε σ : Type}

-- Notes the hash types of the digests that are asked for, whether or not they come from a cache.
def recorded (digestOf : HashType → EStateM ε σ Digest) (hashType : HashType) :
    EStateM ε (List HashType × σ) Digest := fun (asked, state) =>
  match digestOf hashType state with
  | .ok digest after => .ok digest (asked ++ [hashType], after)
  | .error fault after => .error fault (asked ++ [hashType], after)

theorem recorded_lockstep {excused : ε → Prop} (digestOf : HashType → EStateM ε σ Digest)
    (hashType : HashType) :
    Lockstep (fun left right => left.2 = right) excused (recorded digestOf hashType)
      (digestOf hashType) := by
  rintro ⟨asked, state⟩ _ rfl
  simp only [recorded]
  cases digestOf hashType state with
  | ok digest after => exact .ok digest rfl
  | error fault after => exact .error fault rfl

end Recording

-- The hash types of the signatures for which a digest is needed, in order.
def reached (source : DigestSource) (flags : Flags) (signatures keys : List Bytes)
    (log : DigestLog) : List HashType :=
  (finalState (matchFrom (recorded (DigestCache.fetch source signatures)) flags signatures 0 keys
    ([], ⟨[], log⟩))).1

def HashTypeOf (flags : Flags) (blob : Bytes) (hashType : HashType) : Prop :=
  ∃ pair, Signature.parse flags blob = .ok (.valid ⟨pair, hashType⟩)

section Matching

variable {σ : Type} {digestOf : HashType → EStateM ScriptError σ Digest} {flags : Flags}
  {kept : List Bytes → σ → Prop} {broken : ScriptError → σ → Prop}

-- The invariant is about the signatures that are left. Only the digests change the state.
theorem matchFrom_ensures
    (hdigest : ∀ blob later signature, Signature.parse flags blob = .ok (.valid signature) →
      Ensures (kept (blob :: later)) (kept later) broken (digestOf signature.hashType))
    (hrules : ∀ left fault state, kept left state → fault.rules ≠ [] → broken fault state)
    (signatures : List Bytes) (position : Nat) (keys : List Bytes) :
    Ensures (kept signatures) (fun state => ∃ left, kept left state) broken
      (matchFrom digestOf flags signatures position keys) := by
  have hends (left : List Bytes) (state : σ) (hkept : kept left state) :
      ∃ left, kept left state := ⟨left, hkept⟩
  induction signatures generalizing position keys with
  | nil => exact .pure (hends []) _
  | cons blob later ih =>
      unfold matchFrom
      split
      · exact .pure (hends _) _
      · refine .check (fun fault hfault state hkept =>
          hrules _ _ _ hkept (Signature.rules_of_parse hfault)) fun outcome hparse => ?_
        cases outcome with
        | invalid reason => exact .pure (hends _) _
        | valid signature =>
            refine .bind (hdigest blob later signature hparse) fun digest => ?_
            refine .check (fun fault hfault state hkept =>
              hrules _ _ _ hkept (rules_of_findKey hfault)) fun place _ => ?_
            cases place with
            | none => exact .pure (hends _) _
            | some place =>
                exact .bind (ih (place.1 + 1) place.2) fun _ => .pure (fun _ => id) _

end Matching

section Invariant

variable {source : DigestSource} {flags : Flags} {signatures : List Bytes} {log : DigestLog}

-- What was asked for, what was requested, and the signatures that were read for it.
structure Asked (source : DigestSource) (flags : Flags) (signatures : List Bytes) (log : DigestLog)
    (read : List Bytes) (requests : List DigestRequest) (failure : Option DigestError)
    (state : List HashType × DigestCache) : Prop where
  log_eq : state.2.log = log ++ requests
  dialogue : Dialogue source signatures log requests failure
  hashTypes_eq : requests.map DigestRequest.hashType = uncached state.1
  read_eq : List.Forall₂ (HashTypeOf flags) read state.1

theorem Asked.start (source : DigestSource) (flags : Flags) (signatures : List Bytes)
    (log : DigestLog) : Asked source flags signatures log [] [] none ([], ⟨[], log⟩) where
  log_eq := (List.append_nil log).symm
  dialogue := .start
  hashTypes_eq := rfl
  read_eq := .nil

-- The cache holds what the first hash types asked for.
def Kept (source : DigestSource) (flags : Flags) (signatures : List Bytes) (log : DigestLog)
    (left : List Bytes) (state : List HashType × DigestCache) : Prop :=
  ∃ read requests, signatures = read ++ left ∧
    Asked source flags signatures log read requests none state ∧
    state.2.entries.map Prod.fst = cached state.1

-- An error is about a digest exactly when a request failed.
def Broken (source : DigestSource) (flags : Flags) (signatures : List Bytes) (log : DigestLog)
    (fault : ScriptError) (state : List HashType × DigestCache) : Prop :=
  ∃ left read requests failure, signatures = read ++ left ∧
    Asked source flags signatures log read requests failure state ∧
    ∀ cause, fault = .digest cause ↔ failure = some cause

theorem Kept.broken {left : List Bytes} {state : List HashType × DigestCache}
    (hkept : Kept source flags signatures log left state) {fault : ScriptError}
    (hrules : fault.rules ≠ []) : Broken source flags signatures log fault state := by
  obtain ⟨read, requests, hsignatures, hasked, -⟩ := hkept
  refine ⟨left, read, requests, none, hsignatures, hasked, fun cause => ?_⟩
  refine iff_of_false ?_ (by simp)
  rintro rfl
  exact hrules rfl

theorem fetch_ensures {blob : Bytes} {later : List Bytes} {signature : Signature}
    (hparse : Signature.parse flags blob = .ok (.valid signature)) :
    Ensures (Kept source flags signatures log (blob :: later))
      (Kept source flags signatures log later) (Broken source flags signatures log)
      (recorded (DigestCache.fetch source signatures) signature.hashType) := by
  rintro ⟨asked, entries, _⟩ ⟨read, requests, hsignatures, ⟨rfl, hdialogue, hmap, hread⟩, hentries⟩
  simp only [] at hmap hread hentries
  rw [List.append_cons] at hsignatures
  have hreadMore :
      List.Forall₂ (HashTypeOf flags) (read ++ [blob]) (asked ++ [signature.hashType]) :=
    List.rel_append hread (.cons ⟨signature.pair, hparse⟩ .nil)
  simp only [recorded, DigestCache.fetch]
  cases hlookup : entries.lookup signature.hashType with
  | some digest =>
      have hmem : signature.hashType ∈ cached asked := by
        by_contra hnot
        rw [← hentries, ← lookup_eq_none_iff, hlookup] at hnot
        cases hnot
      refine .ok ⟨_, requests, hsignatures, ⟨rfl, hdialogue, ?_, hreadMore⟩, ?_⟩
      · rw [hmap, uncached_concat_of_mem hmem]
      · rw [hentries, cached_concat_of_mem hmem]
  | none =>
      rw [lookup_eq_none_iff, hentries] at hlookup
      have hmapMore (answer : Except DigestError Digest) :
          List.map DigestRequest.hashType
              (requests ++ [⟨signature.hashType, signatures, answer⟩]) =
            uncached (asked ++ [signature.hashType]) := by
        rw [List.map_append, hmap, uncached_concat_of_not_mem hlookup]
        rfl
      simp only [DigestSource.request, DigestSource.ask]
      cases hanswer : source (log ++ requests) signature.hashType signatures with
      | ok digest =>
          refine .ok ⟨_, _, hsignatures,
            ⟨?_, .answered hdialogue hanswer, hmapMore _, hreadMore⟩, ?_⟩
          · rw [log_insert, List.append_assoc]
          · exact map_fst_insert hentries hlookup digest
      | error cause =>
          refine .error ⟨later, _, _, some cause, hsignatures,
            ⟨?_, .failed hdialogue hanswer, hmapMore _, hreadMore⟩, fun other => ?_⟩
          · rw [List.append_assoc]
          · simp

variable (source flags signatures log) (keys : List Bytes)

theorem exists_asked :
    ∃ left read requests failure state, signatures = read ++ left ∧
      Asked source flags signatures log read requests failure state ∧
      state.1 = reached source flags signatures keys log ∧
      state.2.log = finalState (matchSignatures source flags signatures keys log) ∧
      ∀ cause, verdict (matchSignatures source flags signatures keys log) =
        .error (.digest cause) ↔ failure = some cause := by
  have hstart : Kept source flags signatures log signatures ([], ⟨[], log⟩) :=
    ⟨[], [], rfl, .start source flags signatures log, rfl⟩
  have hends := matchFrom_ensures (fun _ _ _ hparse => fetch_ensures hparse)
    (fun _ _ _ hkept hrules => hkept.broken hrules) signatures 0 keys _ hstart
  have hsubset : flags ⊆ flags := fun _ => id
  have hagree := matchFrom_lockstep hsubset
    (recorded_lockstep (DigestCache.fetch source signatures)) signatures 0 keys
    ([], DigestCache.mk [] log) _ rfl
  simp only [reached, matchSignatures]
  generalize matchFrom (recorded (DigestCache.fetch source signatures)) flags signatures 0 keys
    ([], ⟨[], log⟩) = recording at hends hagree ⊢
  generalize matchFrom (DigestCache.fetch source signatures) flags signatures 0 keys
    ⟨[], log⟩ = matching at hagree ⊢
  cases hagree with
  | ok matched hafter =>
      subst hafter
      cases hends with
      | ok hkept =>
          obtain ⟨left, read, requests, hsignatures, hasked, -⟩ := hkept
          exact ⟨left, read, requests, none, _, hsignatures, hasked, rfl, rfl, by simp [verdict]⟩
  | error fault hafter =>
      subst hafter
      cases hends with
      | error hbroken =>
          obtain ⟨left, read, requests, failure, hsignatures, hasked, hfailure⟩ := hbroken
          refine ⟨left, read, requests, failure, _, hsignatures, hasked, rfl, rfl, fun cause => ?_⟩
          rw [← hfailure cause]
          simp [verdict]
  | excused hfault => exact absurd hfault (not_added_self _ _)

end Invariant

theorem isDefined_of_hashTypeOf {flags : Flags} (hstrict : flags.enforces .strictEnc = true)
    {blob : Bytes} {hashType : HashType} (hread : HashTypeOf flags blob hashType) :
    hashType.isDefined = true := by
  obtain ⟨pair, hparse⟩ := hread
  cases Signature.parsed_of_parse hparse with
  | valid hlast _ hcheck =>
      by_contra hundefined
      simp [Flags.whenEnforced, hstrict, Signature.checkHashType, hlast, hundefined] at hcheck

-- The matching that requests every digest.
def matchUncached (source : DigestSource) (flags : Flags) (signatures keys : List Bytes) :
    LogM Matches := do
  let matched ← matchFrom (source.request · signatures) flags signatures 0 keys
  return ⟨matched⟩

theorem request_lockstep {excused : ScriptError → Prop}
    (answer : HashType → List Bytes → Except DigestError Digest) (signatures : List Bytes)
    (hashType : HashType) :
    Lockstep (fun _ _ => True) excused
      (DigestSource.request (.stateless answer) hashType signatures)
      (answered (answer · signatures) hashType) := by
  intro log _ _
  simp only [DigestSource.request, DigestSource.ask, DigestSource.stateless, answered]
  cases answer hashType signatures with
  | ok digest => exact .ok digest trivial
  | error cause => exact .error _ trivial

theorem verdict_matchUncached (answer : HashType → List Bytes → Except DigestError Digest)
    (flags : Flags) (signatures keys : List Bytes) (log : DigestLog) :
    verdict (matchUncached (.stateless answer) flags signatures keys log) =
      (search (answer · signatures) flags signatures 0 keys).map Matches.mk := by
  have hsubset : flags ⊆ flags := fun _ => id
  have hagree := matchFrom_lockstep hsubset (request_lockstep answer signatures) signatures 0 keys
    log () trivial
  rw [search, ← hagree.verdict_eq (not_added_self flags), matchUncached]
  cases hmatch : matchFrom (DigestSource.request (.stateless answer) · signatures) flags signatures
      0 keys log with
  | ok matched after => rw [bind_of_ok hmatch]; rfl
  | error fault after => rw [bind_of_error hmatch]; rfl

-- Requests name all the signatures and stop at an error, which is the result. Those that strict
-- signatures need fit the cache. Nobody but the source can tell that there is one.
theorem matchSignatures_requests (flags : Flags) (signatures keys : List Bytes) :
    (∀ source log, ∃ requests failure,
      finalState (matchSignatures source flags signatures keys log) = log ++ requests ∧
      Dialogue source signatures log requests failure ∧
      (∀ cause, verdict (matchSignatures source flags signatures keys log) =
        .error (.digest cause) ↔ failure = some cause) ∧
      (∃ read left, signatures = read ++ left ∧
        List.Forall₂ (HashTypeOf flags) read (reached source flags signatures keys log)) ∧
      requests.map DigestRequest.hashType =
        uncached (reached source flags signatures keys log) ∧
      (flags.enforces .strictEnc = true →
        requests.length ≤ 6 ∧ (requests.map DigestRequest.hashType).Nodup)) ∧
    ∀ answer log, verdict (matchSignatures (.stateless answer) flags signatures keys log) =
      verdict (matchUncached (.stateless answer) flags signatures keys log) := by
  refine ⟨fun source log => ?_, fun answer log => ?_⟩
  · obtain ⟨left, read, requests, failure, state, hsignatures, hasked, hreached, hlog, hfailure⟩ :=
      exists_asked source flags signatures log keys
    obtain ⟨hextended, hdialogue, hmap, hread⟩ := hasked
    rw [hlog] at hextended
    rw [hreached] at hmap hread
    refine ⟨requests, failure, hextended, hdialogue, hfailure, ⟨read, left, hsignatures, hread⟩,
      hmap, fun hstrict => ?_⟩
    have hdefined : ∀ hashType ∈ reached source flags signatures keys log,
        hashType.isDefined = true := by
      intro hashType hmem
      obtain ⟨index, hindex, rfl⟩ := List.getElem_of_mem hmem
      exact isDefined_of_hashTypeOf hstrict (hread.get (hread.length_eq ▸ hindex) hindex)
    obtain ⟨huncached, hroom⟩ := uncached_of_defined hdefined
    rw [huncached] at hmap
    rw [hmap]
    refine ⟨?_, nodup_eraseDups _⟩
    calc requests.length = (requests.map DigestRequest.hashType).length := List.length_map _ |>.symm
      _ = (reached source flags signatures keys log).eraseDups.length := by rw [hmap]
      _ ≤ 6 := hroom
  · rw [verdict_matchSignatures, verdict_matchUncached]

-- Two signatures of one hash type, and a request for both.
theorem matchSignatures_requests_generator :
    (Flags.none.enable .strictEnc).enforces .strictEnc = true ∧
      reached (.constant zeroDigest) (Flags.none.enable .strictEnc)
        [generatorSignature, generatorSignature] [generatorKey, generatorKey] [] = [.all, .all] ∧
      ∃ requests, finalState (matchSignatures (.constant zeroDigest) (Flags.none.enable .strictEnc)
          [generatorSignature, generatorSignature] [generatorKey, generatorKey] []) = requests ∧
        requests.map DigestRequest.hashType = [.all] ∧ requests.length ≤ 6 := by
  have hreached : reached (.constant zeroDigest) (Flags.none.enable .strictEnc)
      [generatorSignature, generatorSignature] [generatorKey, generatorKey] [] = [.all, .all] := by
    decide +kernel
  obtain ⟨hrequests, -⟩ := matchSignatures_requests (Flags.none.enable .strictEnc)
    [generatorSignature, generatorSignature] [generatorKey, generatorKey]
  obtain ⟨requests, _, hlog, -, -, -, hmap, hstrict⟩ := hrequests (.constant zeroDigest) []
  rw [hreached] at hmap
  exact ⟨rfl, hreached, requests, hlog, hmap, (hstrict rfl).1⟩

end Multisig

end SigOps
