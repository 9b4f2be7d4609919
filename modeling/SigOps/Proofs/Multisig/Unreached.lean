import SigOps.Proofs.Multisig.Search

namespace SigOps

-- Answers made alike to requests for the same hash types.
def DigestRequest.Alike (first second : DigestRequest) : Prop :=
  first.hashType = second.hashType ∧ first.answer = second.answer

-- The answers may depend on the hash type and on earlier answers.
def DigestSource.IgnoresSignatures (source : DigestSource) : Prop :=
  ∀ log log' hashType signatures signatures', List.Forall₂ DigestRequest.Alike log log' →
    source log hashType signatures = source log' hashType signatures'

namespace Multisig

section Keys

variable {flags : Flags} {candidates : List PublicKey} {reserved position found : Nat}
  {kept dropped dropped' rest : List Bytes}

theorem findKey_of_length_le (hfew : dropped.length ≤ reserved) :
    findKey flags candidates reserved position dropped = .ok none := by
  cases dropped with
  | nil => rfl
  | cons key rest => rw [findKey, if_pos (Nat.lt_of_succ_le hfew)]

-- A key that is found does not depend on the keys after it.
theorem findKey_replace (hlength : dropped'.length = dropped.length)
    (hfind : findKey flags candidates reserved position (kept ++ dropped) =
      .ok (some (found, rest)))
    (hfound : found < position + kept.length) :
    ∃ keptRest, rest = keptRest ++ dropped ∧ position + kept.length = found + 1 + keptRest.length ∧
      findKey flags candidates reserved position (kept ++ dropped') =
        .ok (some (found, keptRest ++ dropped')) := by
  induction kept generalizing position with
  | nil =>
      obtain ⟨skipped, key, -, rfl, -⟩ := findKey_eq_some hfind
      rw [List.length_nil] at hfound
      omega
  | cons key kept ih =>
      have hsame : (kept ++ dropped').length = (kept ++ dropped).length := by
        rw [List.length_append, List.length_append, hlength]
      rw [List.cons_append, findKey] at hfind
      rw [List.cons_append, findKey, hsame]
      by_cases hfew : (kept ++ dropped).length < reserved
      · rw [if_pos hfew] at hfind
        cases hfind
      · rw [if_neg hfew] at hfind ⊢
        obtain ⟨_, hcheck, hfind⟩ := bind_eq_ok_iff.mp hfind
        simp only [hcheck, Bind.bind, Except.bind]
        by_cases hcandidate : isCandidate flags candidates key = true
        · rw [if_pos hcandidate] at hfind ⊢
          cases hfind
          exact ⟨kept, rfl, by rw [List.length_cons]; omega, rfl⟩
        · rw [if_neg hcandidate] at hfind ⊢
          rw [List.length_cons] at hfound ⊢
          obtain ⟨keptRest, hrest, hcount, hfind⟩ := ih hfind (by omega)
          exact ⟨keptRest, hrest, by omega, hfind⟩

-- Keys that are left for later signatures are not looked at.
theorem findKey_replace_reserved (hlength : dropped'.length = dropped.length)
    (hreserved : dropped.length ≤ reserved)
    (hfind : findKey flags candidates reserved position (kept ++ dropped) = .ok none) :
    findKey flags candidates reserved position (kept ++ dropped') = .ok none := by
  induction kept generalizing position with
  | nil => exact findKey_of_length_le (hlength.trans_le hreserved)
  | cons key kept ih =>
      have hsame : (kept ++ dropped').length = (kept ++ dropped).length := by
        rw [List.length_append, List.length_append, hlength]
      rw [List.cons_append, findKey] at hfind
      rw [List.cons_append, findKey, hsame]
      by_cases hfew : (kept ++ dropped).length < reserved
      · rw [if_pos hfew]
      · rw [if_neg hfew] at hfind ⊢
        obtain ⟨_, hcheck, hfind⟩ := bind_eq_ok_iff.mp hfind
        simp only [hcheck, Bind.bind, Except.bind]
        by_cases hcandidate : isCandidate flags candidates key = true
        · rw [if_pos hcandidate] at hfind
          cases hfind
        · rw [if_neg hcandidate] at hfind ⊢
          exact ih hfind

end Keys

section Courses

variable {σ τ : Type} {digestOf : HashType → EStateM ScriptError σ Digest}
  {digestOf' : HashType → EStateM ScriptError τ Digest} {flags : Flags} {position : Nat}
  {state after : σ} {matched : List (Option Nat)}

-- The keys behind all that were found, unless they would have been tried for a signature that found
-- none.
theorem Course.replace_keys {signatures kept dropped dropped' : List Bytes}
    (hcourse : Course digestOf flags signatures position (kept ++ dropped) state matched after)
    (hlength : dropped'.length = dropped.length)
    (hfound : ∀ place, some place ∈ matched → place < position + kept.length)
    (hreserved : none ∈ matched → dropped.length + matched.length ≤ signatures.length) :
    Course digestOf flags signatures position (kept ++ dropped') state matched after := by
  have hsame (kept : List Bytes) : (kept ++ dropped').length = (kept ++ dropped).length := by
    rw [List.length_append, List.length_append, hlength]
  generalize hkeys : kept ++ dropped = keys at hcourse
  induction hcourse generalizing kept with
  | done => exact .done
  | few hfew => exact .few (by rwa [hsame, hkeys])
  | unreadable hmany hparse => exact .unreadable (by rwa [hsame, hkeys]) hparse
  | unmatched hmany hparse hdigest hfind =>
      rw [← hkeys] at hfind
      have hlater := Nat.le_of_succ_le_succ (hreserved (List.mem_singleton_self _))
      exact .unmatched (by rwa [hsame, hkeys]) hparse hdigest
        (findKey_replace_reserved hlength hlater hfind)
  | matched hmany hparse hdigest hfind _ ih =>
      rw [← hkeys] at hfind
      obtain ⟨keptRest, hrest, hcount, hfind⟩ :=
        findKey_replace hlength hfind (hfound _ List.mem_cons_self)
      refine .matched (by rwa [hsame, hkeys]) hparse hdigest hfind (ih ?_ ?_ hrest.symm)
      · intro place hplace
        rw [← hcount]
        exact hfound place (List.mem_cons_of_mem _ hplace)
      · intro hnone
        have hlater := hreserved (List.mem_cons_of_mem _ hnone)
        rw [List.length_cons, List.length_cons] at hlater
        omega

-- The digests of the two courses may come from related states.
theorem Course.replace_later {related : σ → τ → Prop} {looked later later' keys : List Bytes}
    {state' : τ} (hdigest : ∀ hashType,
      Lockstep related (fun _ => False) (digestOf hashType) (digestOf' hashType))
    (hcourse : Course digestOf flags (looked ++ later) position keys state matched after)
    (hlength : later'.length = later.length) (hnone : none ∈ matched)
    (hlooked : matched.length = looked.length) (hrelated : related state state') :
    ∃ after', Course digestOf' flags (looked ++ later') position keys state' matched after' ∧
      related after after' := by
  have hsame (looked : List Bytes) : (looked ++ later').length = (looked ++ later).length := by
    rw [List.length_append, List.length_append, hlength]
  induction looked generalizing position keys state matched state' with
  | nil =>
      obtain rfl := List.length_eq_zero_iff.mp hlooked
      cases hnone
  | cons blob looked ih =>
      rw [List.cons_append] at hcourse ⊢
      cases hcourse with
      | few => cases hnone
      | unreadable hmany hparse =>
          exact ⟨state', .unreadable (by rwa [hsame]) hparse, hrelated⟩
      | unmatched hmany hparse hdigestOf hfind =>
          obtain ⟨after', hdigestOf', hafter⟩ := (hdigest _).of_ok hrelated hdigestOf
          exact ⟨after', .unmatched (by rwa [hsame]) hparse hdigestOf' (by rwa [hsame]), hafter⟩
      | matched hmany hparse hdigestOf hfind htail =>
          obtain ⟨middle, hdigestOf', hmiddle⟩ := (hdigest _).of_ok hrelated hdigestOf
          obtain ⟨after', htail', hafter⟩ := ih htail (by simpa using hnone)
            (Nat.succ.inj hlooked) hmiddle
          exact ⟨after', .matched (by rwa [hsame]) hparse hdigestOf' (by rwa [hsame]) htail',
            hafter⟩

end Courses

-- The same digests are kept, and the requests were answered alike.
def DigestCache.Alike (first second : DigestCache) : Prop :=
  first.entries = second.entries ∧ List.Forall₂ DigestRequest.Alike first.log second.log

theorem DigestCache.Alike.insert {first second : DigestCache} (halike : Alike first second)
    (hashType : HashType) (digest : Digest) :
    Alike (first.insert hashType digest) (second.insert hashType digest) := by
  unfold DigestCache.insert
  rw [halike.1]
  split
  · exact ⟨rfl, halike.2⟩
  · exact halike

theorem DigestCache.fetch_alike {source : DigestSource} (hignores : source.IgnoresSignatures)
    (signatures signatures' : List Bytes) (hashType : HashType) :
    Lockstep Alike (fun _ => False) (fetch source signatures hashType)
      (fetch source signatures' hashType) := by
  rintro ⟨entries, log⟩ ⟨_, log'⟩ ⟨rfl, hlog⟩
  have hlonger (answer : Except DigestError Digest) :
      List.Forall₂ DigestRequest.Alike (log ++ [⟨hashType, signatures, answer⟩])
        (log' ++ [⟨hashType, signatures', answer⟩]) :=
    List.rel_append hlog (.cons ⟨rfl, rfl⟩ .nil)
  have hanswer := hignores log log' hashType signatures signatures' hlog
  simp only [fetch]
  cases entries.lookup hashType with
  | some digest => exact .ok digest ⟨rfl, hlog⟩
  | none =>
      simp only [DigestSource.request, DigestSource.ask, hanswer]
      cases source log' hashType signatures' with
      | ok digest =>
          have halike : Alike ⟨entries, log ++ [⟨hashType, signatures, .ok digest⟩]⟩
              ⟨entries, log' ++ [⟨hashType, signatures', .ok digest⟩]⟩ :=
            ⟨rfl, hlonger (.ok digest)⟩
          exact .ok digest (halike.insert hashType digest)
      | error fault => exact .error _ ⟨rfl, hlonger _⟩

section Places

variable {signatureCount keyCount : Nat} {matched : List (Option Nat)} {places : List Nat}

theorem Shape.some_mem_iff (hshape : Shape signatureCount keyCount matched places) {place : Nat} :
    some place ∈ matched ↔ place ∈ places := by
  rw [hshape.matched_eq]
  split <;> simp

theorem Shape.le_of_getLast? (hshape : Shape signatureCount keyCount matched places) {last : Nat}
    (hlast : matched.getLast? = some (some last)) :
    none ∉ matched ∧ ∀ place, some place ∈ matched → place ≤ last := by
  have hmatched := hshape.matched_eq
  split at hmatched
  · rw [List.append_nil] at hmatched
    rw [hmatched, List.getLast?_map, Option.map_eq_some_iff] at hlast
    obtain ⟨_, hlast, hsame⟩ := hlast
    obtain rfl := Option.some.inj hsame
    obtain ⟨earlier, hplaces⟩ := List.getLast?_eq_some_iff.mp hlast
    have hincreasing := hshape.increasing
    rw [hplaces] at hincreasing
    refine ⟨by simp [hmatched], fun place hplace => ?_⟩
    rw [hshape.some_mem_iff, hplaces, List.mem_append, List.mem_singleton] at hplace
    rcases hplace with hearlier | rfl
    · exact Nat.le_of_lt ((List.pairwise_append.mp hincreasing).2.2 _ hearlier _ (by simp))
    · exact Nat.le_refl _
  · rw [hmatched, List.getLast?_concat] at hlast
    cases hlast

theorem Shape.lt_of_none (hshape : Shape signatureCount keyCount matched places) {index : Nat}
    (hnone : matched[index]? = some none) :
    matched.length = index + 1 ∧ index < signatureCount ∧
      ∀ place, some place ∈ matched → place + (signatureCount - index) < keyCount := by
  have hmatched := hshape.matched_eq
  have hle := hshape.length_le
  have hnot := hshape.none_mem_iff.mp (List.mem_of_getElem? hnone)
  rw [if_neg hnot] at hmatched
  obtain rfl : index = places.length := by
    rw [hmatched, List.getElem?_append] at hnone
    grind
  refine ⟨by simp [hmatched], by omega, fun place hplace => ?_⟩
  rw [hshape.some_mem_iff] at hplace
  obtain ⟨earlier, hearlier, rfl⟩ := List.getElem_of_mem hplace
  have hroom := hshape.room earlier hearlier
  omega

end Places

-- Three kinds of operands that do not count: the keys after the last match, the keys left for the
-- signatures after one without a key, and these signatures.
theorem matchSignatures_unreached (source : DigestSource) (flags : Flags)
    (signatures keys : List Bytes) {log after : DigestLog} {matched : Matches}
    (hmatched : matchSignatures source flags signatures keys log = .ok matched after) :
    (∀ last kept dropped dropped', matched.keys.getLast? = some (some last) →
      keys = kept ++ dropped → kept.length = last + 1 → dropped'.length = dropped.length →
      matchSignatures source flags signatures (kept ++ dropped') log = .ok matched after) ∧
    ∀ index, matched.keys[index]? = some none →
      (∀ kept dropped dropped', keys = kept ++ dropped →
        dropped.length = signatures.length - 1 - index → dropped'.length = dropped.length →
        matchSignatures source flags signatures (kept ++ dropped') log = .ok matched after) ∧
      (source.IgnoresSignatures → ∀ looked later later', signatures = looked ++ later →
        looked.length = index + 1 → later'.length = later.length →
        ∃ after', matchSignatures source flags (looked ++ later') keys log = .ok matched after' ∧
          List.Forall₂ DigestRequest.Alike after after') := by
  obtain ⟨cache, hcourse, rfl⟩ := matchSignatures_eq_ok_iff.mp hmatched
  have hshape (hne : matched.keys ≠ []) :
      ∃ places, Shape signatures.length keys.length matched.keys places := by
    have henough := Nat.not_lt.mp fun hfew => hne (hcourse.eq_nil_of_few hfew).1
    obtain ⟨places, hshape, -⟩ := hcourse.exists_shape henough (Nat.zero_add _)
    exact ⟨places, hshape⟩
  refine ⟨?_, fun index hnone => ?_⟩
  · rintro last kept dropped dropped' hlast rfl hkept hlength
    obtain ⟨places, hshape⟩ := hshape (by rintro hnil; simp [hnil] at hlast)
    obtain ⟨hnone, hplaces⟩ := hshape.le_of_getLast? hlast
    refine matchSignatures_eq_ok_iff.mpr ⟨cache, hcourse.replace_keys hlength ?_ ?_, rfl⟩
    · intro place hplace
      have hle := hplaces place hplace
      omega
    · exact fun hmem => absurd hmem hnone
  · obtain ⟨places, hshape⟩ := hshape (by rintro hnil; simp [hnil] at hnone)
    obtain ⟨hcount, hindex, hplaces⟩ := hshape.lt_of_none hnone
    constructor
    · rintro kept dropped dropped' rfl hdropped hlength
      rw [List.length_append] at hplaces
      refine matchSignatures_eq_ok_iff.mpr ⟨cache, hcourse.replace_keys hlength ?_ ?_, rfl⟩
      · intro place hplace
        have hlt := hplaces place hplace
        omega
      · intro _
        omega
    · rintro hignores looked later later' rfl hlooked hlength
      obtain ⟨cache', hcourse', -, hlog⟩ := hcourse.replace_later
        (DigestCache.fetch_alike hignores _ (looked ++ later')) hlength (List.mem_of_getElem? hnone)
        (hcount.trans hlooked.symm) ⟨rfl, List.forall₂_same.mpr fun _ _ => ⟨rfl, rfl⟩⟩
      exact ⟨cache'.log, matchSignatures_eq_ok_iff.mpr ⟨cache', hcourse', rfl⟩, hlog⟩

-- Each replacement would be an error if it were looked at.
theorem matchSignatures_unreached_malformed :
    verdict (matchSignatures (.constant zeroDigest) (Flags.none.enable .strictEnc)
      [generatorSignature] [generatorKey, []] []) = .ok ⟨[some 0]⟩ ∧
    verdict (matchSignatures (.constant zeroDigest) (Flags.none.enable .strictEnc)
      [generatorSignature, [], []] [generatorKey, generatorKey, []] []) = .ok ⟨[some 0, none]⟩ ∧
    verdict (matchSignatures (.constant zeroDigest) (Flags.none.enable .strictEnc)
      [generatorSignature, [], [0]] [generatorKey, generatorKey, generatorKey] []) =
        .ok ⟨[some 0, none]⟩ := by
  have hsatisfied : verdict (matchSignatures (.constant zeroDigest) (Flags.none.enable .strictEnc)
      [generatorSignature] [generatorKey, generatorKey] []) = .ok ⟨[some 0]⟩ := by
    decide +kernel
  have hended : verdict (matchSignatures (.constant zeroDigest) (Flags.none.enable .strictEnc)
      [generatorSignature, [], []] [generatorKey, generatorKey, generatorKey] []) =
        .ok ⟨[some 0, none]⟩ := by
    decide +kernel
  obtain ⟨_, hsatisfied⟩ := exists_state_of_verdict hsatisfied
  obtain ⟨_, hended⟩ := exists_state_of_verdict hended
  obtain ⟨hlast, -⟩ := matchSignatures_unreached _ _ _ _ hsatisfied
  obtain ⟨-, hnone⟩ := matchSignatures_unreached _ _ _ _ hended
  obtain ⟨hkeys, hlater⟩ := hnone 1 rfl
  have hlast := hlast 0 [generatorKey] [generatorKey] [[]] rfl rfl rfl rfl
  have hkeys := hkeys [generatorKey, generatorKey] [generatorKey] [[]] rfl rfl rfl
  obtain ⟨_, hlater, -⟩ :=
    hlater (fun _ _ _ _ _ _ => rfl) [generatorSignature, []] [[]] [[0]] rfl rfl rfl
  exact ⟨congrArg verdict hlast, congrArg verdict hkeys, congrArg verdict hlater⟩

end Multisig

end SigOps
