import SigOps.Multisig.Matching
import SigOps.Proofs.Basic

namespace SigOps

namespace Multisig

theorem findKey_eq_some {flags : Flags} {candidates : List PublicKey} {reserved position : Nat}
    {keys : List Bytes} {found : Nat} {rest : List Bytes}
    (hfind : findKey flags candidates reserved position keys = .ok (some (found, rest))) :
    ∃ skipped key, keys = skipped ++ key :: rest ∧ found = position + skipped.length ∧
      reserved ≤ rest.length ∧ (∀ other ∈ skipped, isCandidate flags candidates other = false) ∧
      isCandidate flags candidates key = true ∧ PublicKey.checkEncoding flags key = .ok () := by
  induction keys generalizing position with
  | nil => cases hfind
  | cons key keys ih =>
      by_cases hfew : keys.length < reserved
      · rw [findKey, if_pos hfew] at hfind
        cases hfind
      · rw [findKey, if_neg hfew] at hfind
        obtain ⟨_, hcheck, hfind⟩ := bind_eq_ok_iff.mp hfind
        by_cases hcandidate : isCandidate flags candidates key = true
        · rw [if_pos hcandidate] at hfind
          cases hfind
          exact ⟨[], key, rfl, rfl, Nat.not_lt.mp hfew, by simp, hcandidate, hcheck⟩
        · rw [if_neg hcandidate] at hfind
          obtain ⟨skipped, last, rfl, rfl, hreserved, hskipped, hlast⟩ := ih hfind
          refine ⟨key :: skipped, last, rfl, ?_, hreserved, ?_, hlast⟩
          · rw [List.length_cons]
            omega
          · simpa [hcandidate] using hskipped

theorem findKey_eq_none {flags : Flags} {candidates : List PublicKey} {reserved position : Nat}
    {keys : List Bytes} (hfind : findKey flags candidates reserved position keys = .ok none) :
    ∃ tried left, keys = tried ++ left ∧ left.length ≤ reserved ∧
      ∀ other ∈ tried, isCandidate flags candidates other = false := by
  induction keys generalizing position with
  | nil => exact ⟨[], [], rfl, Nat.zero_le _, by simp⟩
  | cons key keys ih =>
      by_cases hfew : keys.length < reserved
      · exact ⟨[], key :: keys, rfl, hfew, by simp⟩
      · rw [findKey, if_neg hfew] at hfind
        obtain ⟨_, -, hfind⟩ := bind_eq_ok_iff.mp hfind
        by_cases hcandidate : isCandidate flags candidates key = true
        · rw [if_pos hcandidate] at hfind
          cases hfind
        · rw [if_neg hcandidate] at hfind
          obtain ⟨tried, left, rfl, hleft, htried⟩ := ih hfind
          exact ⟨key :: tried, left, rfl, hleft, by simpa [hcandidate] using htried⟩

variable {σ : Type} (digestOf : HashType → EStateM ScriptError σ Digest) (flags : Flags)

-- One constructor for each way in which a turn can end without an error.
inductive Course : (signatures : List Bytes) → (position : Nat) → (keys : List Bytes) → σ →
    (matched : List (Option Nat)) → σ → Prop where
  | done {position : Nat} {keys : List Bytes} {state : σ} : Course [] position keys state [] state
  | few {blob : Bytes} {later : List Bytes} {position : Nat} {keys : List Bytes} {state : σ}
      (hfew : keys.length ≤ later.length) : Course (blob :: later) position keys state [] state
  | unreadable {blob : Bytes} {later : List Bytes} {position : Nat} {keys : List Bytes} {state : σ}
      (hmany : later.length < keys.length) {reason : Unusable}
      (hparse : Signature.parse flags blob = .ok (.invalid reason)) :
      Course (blob :: later) position keys state [none] state
  | unmatched {blob : Bytes} {later : List Bytes} {position : Nat} {keys : List Bytes}
      {state after : σ} (hmany : later.length < keys.length) {signature : Signature}
      {digest : Digest} (hparse : Signature.parse flags blob = .ok (.valid signature))
      (hdigest : digestOf signature.hashType state = .ok digest after)
      (hfind : findKey flags (Ecdsa.possibleKeys digest signature.pair) later.length position keys =
        .ok none) :
      Course (blob :: later) position keys state [none] after
  | matched {blob : Bytes} {later : List Bytes} {position : Nat} {keys : List Bytes}
      {state middle after : σ} (hmany : later.length < keys.length) {signature : Signature}
      {digest : Digest} {found : Nat} {rest : List Bytes} {tail : List (Option Nat)}
      (hparse : Signature.parse flags blob = .ok (.valid signature))
      (hdigest : digestOf signature.hashType state = .ok digest middle)
      (hfind : findKey flags (Ecdsa.possibleKeys digest signature.pair) later.length position keys =
        .ok (some (found, rest)))
      (htail : Course later (found + 1) rest middle tail after) :
      Course (blob :: later) position keys state (some found :: tail) after

variable {digestOf flags} {signatures : List Bytes} {position : Nat} {keys : List Bytes}
  {state after : σ} {matched : List (Option Nat)}

theorem course_of_matchFrom
    (hmatch : matchFrom digestOf flags signatures position keys state = .ok matched after) :
    Course digestOf flags signatures position keys state matched after := by
  induction signatures generalizing position keys state matched with
  | nil =>
      cases hmatch
      exact .done
  | cons blob later ih =>
      unfold matchFrom at hmatch
      by_cases hfew : keys.length ≤ later.length
      · rw [if_pos hfew] at hmatch
        cases hmatch
        exact .few hfew
      · rw [if_neg hfew] at hmatch
        have hmany : later.length < keys.length := Nat.not_le.mp hfew
        obtain ⟨outcome, _, houtcome, hmatch⟩ := run_bind_eq_ok_iff.mp hmatch
        obtain ⟨hparse, rfl⟩ := run_ofExcept_eq_ok_iff.mp houtcome
        cases outcome with
        | invalid reason =>
            cases hmatch
            exact .unreadable hmany hparse
        | valid signature =>
            obtain ⟨digest, middle, hdigest, hmatch⟩ := run_bind_eq_ok_iff.mp hmatch
            obtain ⟨place, _, hplace, hmatch⟩ := run_bind_eq_ok_iff.mp hmatch
            obtain ⟨hfind, rfl⟩ := run_ofExcept_eq_ok_iff.mp hplace
            cases place with
            | none =>
                cases hmatch
                exact .unmatched hmany hparse hdigest hfind
            | some place =>
                obtain ⟨tail, _, htail, hmatch⟩ := run_bind_eq_ok_iff.mp hmatch
                cases hmatch
                exact .matched hmany hparse hdigest hfind (ih htail)

theorem Course.matchFrom_eq
    (hcourse : Course digestOf flags signatures position keys state matched after) :
    matchFrom digestOf flags signatures position keys state = .ok matched after := by
  induction hcourse with
  | done => rfl
  | few hfew => rw [matchFrom, if_pos hfew]; rfl
  | unreadable hmany hparse =>
      rw [matchFrom, if_neg (Nat.not_le.mpr hmany), hparse]
      rfl
  | unmatched hmany hparse hdigest hfind =>
      rw [matchFrom, if_neg (Nat.not_le.mpr hmany), hparse]
      refine (bind_of_ok rfl).trans ((bind_of_ok hdigest).trans ?_)
      rw [hfind]
      rfl
  | matched hmany hparse hdigest hfind _ ih =>
      rw [matchFrom, if_neg (Nat.not_le.mpr hmany), hparse]
      refine (bind_of_ok rfl).trans ((bind_of_ok hdigest).trans ?_)
      rw [hfind]
      exact (bind_of_ok rfl).trans (bind_of_ok ih)

theorem matchFrom_eq_ok_iff :
    matchFrom digestOf flags signatures position keys state = .ok matched after ↔
      Course digestOf flags signatures position keys state matched after :=
  ⟨course_of_matchFrom, Course.matchFrom_eq⟩

theorem matchSignatures_eq_ok_iff {source : DigestSource} {log extended : DigestLog}
    {result : Matches} :
    matchSignatures source flags signatures keys log = .ok result extended ↔
      ∃ cache, Course (DigestCache.fetch source signatures) flags signatures 0 keys ⟨[], log⟩
        result.keys cache ∧ cache.log = extended := by
  simp only [← matchFrom_eq_ok_iff, matchSignatures]
  cases matchFrom (DigestCache.fetch source signatures) flags signatures 0 keys ⟨[], log⟩ with
  | ok found cache => cases result; simp [and_assoc]
  | error fault cache => simp

end Multisig

end SigOps
