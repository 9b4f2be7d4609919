import Mathlib.Order.Fin.Basic
import SigOps.Proofs.Multisig.Search

namespace SigOps.Multisig

-- The key is among the keys recovered from the signature and its digest.
def Fits (answer : HashType → Except DigestError Digest) (flags : Flags) (blob key : Bytes) :
    Prop :=
  ∃ signature digest publicKey, Signature.parse flags blob = .ok (.valid signature) ∧
    answer signature.hashType = .ok digest ∧ PublicKey.decodeUnder flags key = .ok publicKey ∧
      publicKey ∈ Ecdsa.possibleKeys digest signature.pair

-- A key that fits for each signature, in the order of the signatures.
structure Assignment (fits : Bytes → Bytes → Prop) (signatures keys : List Bytes)
    (choice : Fin signatures.length → Fin keys.length) : Prop where
  increasing : StrictMono choice
  fits_at (index : Fin signatures.length) : fits signatures[index] keys[choice index]

-- The same as a list of positions, none of which is before `position`.
inductive Assigned (fits : Bytes → Bytes → Prop) (keys : List Bytes) :
    (position : Nat) → (signatures : List Bytes) → (choice : List Nat) → Prop where
  | nil (position : Nat) : Assigned fits keys position [] []
  | cons {position place : Nat} {blob key : Bytes} {later : List Bytes} {choice : List Nat}
      (hle : position ≤ place) (hkey : keys[place]? = some key) (hfits : fits blob key)
      (hlater : Assigned fits keys (place + 1) later choice) :
      Assigned fits keys position (blob :: later) (place :: choice)

namespace Assigned

variable {fits : Bytes → Bytes → Prop} {keys : List Bytes} {position : Nat}
  {signatures : List Bytes} {choice : List Nat}

theorem weaken {earlier : Nat} (hassigned : Assigned fits keys position signatures choice)
    (hearlier : earlier ≤ position) : Assigned fits keys earlier signatures choice := by
  cases hassigned with
  | nil => exact .nil _
  | cons hle hkey hfits hlater => exact .cons (hearlier.trans hle) hkey hfits hlater

theorem length_eq (hassigned : Assigned fits keys position signatures choice) :
    choice.length = signatures.length := by
  induction hassigned with
  | nil => rfl
  | cons _ _ _ _ ih => rw [List.length_cons, List.length_cons, ih]

-- There are keys enough for all the signatures.
theorem room (hassigned : Assigned fits keys position signatures choice)
    (hposition : position ≤ keys.length) : position + signatures.length ≤ keys.length := by
  induction hassigned with
  | nil => exact hposition
  | cons hle hkey _ _ ih =>
      obtain ⟨hlt, -⟩ := List.getElem?_eq_some_iff.mp hkey
      have hlater := ih hlt
      rw [List.length_cons]
      omega

theorem le_of_mem (hassigned : Assigned fits keys position signatures choice) {place : Nat}
    (hmem : place ∈ choice) : position ≤ place := by
  induction hassigned with
  | nil => cases hmem
  | cons hle _ _ _ ih =>
      rcases List.mem_cons.mp hmem with rfl | htail
      · exact hle
      · have hlater := ih htail
        omega

theorem pairwise (hassigned : Assigned fits keys position signatures choice) :
    choice.Pairwise (· < ·) := by
  induction hassigned with
  | nil => exact .nil
  | cons _ _ _ hlater ih => exact .cons (fun place hmem => hlater.le_of_mem hmem) ih

theorem fits_at (hassigned : Assigned fits keys position signatures choice) (index : Nat)
    (hindex : index < signatures.length) (hchoice : index < choice.length) :
    ∃ hkey : choice[index] < keys.length, fits signatures[index] keys[choice[index]] := by
  induction hassigned generalizing index with
  | nil => cases hindex
  | cons _ hkey hfits _ ih =>
      cases index with
      | zero =>
          obtain ⟨hlt, rfl⟩ := List.getElem?_eq_some_iff.mp hkey
          exact ⟨hlt, hfits⟩
      | succ index =>
          exact ih index (Nat.lt_of_succ_lt_succ hindex) (Nat.lt_of_succ_lt_succ hchoice)

theorem exists_assignment (hassigned : Assigned fits keys position signatures choice) :
    ∃ places, Assignment fits signatures keys places ∧
      choice = List.ofFn fun index => (places index).val := by
  have hlength := hassigned.length_eq
  have hfits (index : Fin signatures.length) :=
    hassigned.fits_at index index.isLt (by omega)
  refine ⟨fun index => ⟨choice[index.val], (hfits index).1⟩, ⟨?_, ?_⟩, ?_⟩
  · intro first second hlt
    exact List.pairwise_iff_getElem.mp hassigned.pairwise _ _ _ _ hlt
  · intro index
    exact (hfits index).2
  · apply List.ext_getElem
    · rw [List.length_ofFn, hlength]
    · intro index _ _
      rw [List.getElem_ofFn]

theorem of_strictMono {places : Fin signatures.length → Nat} (hincreasing : StrictMono places)
    (hle : ∀ index, position ≤ places index)
    (hfits : ∀ index, ∃ key, keys[places index]? = some key ∧ fits signatures[index] key) :
    Assigned fits keys position signatures (List.ofFn places) := by
  induction signatures generalizing position with
  | nil => exact .nil _
  | cons blob later ih =>
      obtain ⟨key, hkey, hfirst⟩ := hfits ⟨0, Nat.succ_pos _⟩
      have hlater : Assigned fits keys (places ⟨0, Nat.succ_pos _⟩ + 1) later
          (List.ofFn fun index => places index.succ) :=
        ih (fun first second hlt => hincreasing (Fin.succ_lt_succ_iff.mpr hlt))
          (fun index => hincreasing (Fin.succ_pos index)) (fun index => hfits index.succ)
      have hofFn := List.ofFn_succ (f := places)
      rw [hofFn]
      exact .cons (hle _) hkey hfirst hlater

end Assigned

theorem Assignment.assigned {fits : Bytes → Bytes → Prop} {signatures keys : List Bytes}
    {choice : Fin signatures.length → Fin keys.length}
    (hassignment : Assignment fits signatures keys choice) :
    Assigned fits keys 0 signatures (List.ofFn fun index => (choice index).val) := by
  apply Assigned.of_strictMono
  · exact fun first second hlt => hassignment.increasing hlt
  · exact fun index => Nat.zero_le _
  · exact fun index => ⟨keys[choice index], by simp, hassignment.fits_at index⟩

variable {answer : HashType → Except DigestError Digest} {flags : Flags} {keys : List Bytes}
  {position : Nat}

theorem isCandidate_iff {candidates : List PublicKey} {key : Bytes} :
    isCandidate flags candidates key = true ↔
      ∃ publicKey, PublicKey.decodeUnder flags key = .ok publicKey ∧ publicKey ∈ candidates := by
  unfold isCandidate
  cases PublicKey.decodeUnder flags key with
  | ok publicKey => simp
  | error fault => simp

theorem fits_iff {blob key : Bytes} {signature : Signature} {digest : Digest}
    (hparse : Signature.parse flags blob = .ok (.valid signature))
    (hanswer : answer signature.hashType = .ok digest) :
    Fits answer flags blob key ↔
      isCandidate flags (Ecdsa.possibleKeys digest signature.pair) key = true := by
  rw [isCandidate_iff]
  constructor
  · rintro ⟨other, otherDigest, publicKey, hother, hdigest, hdecode, hmem⟩
    rw [hparse, Except.ok.injEq, Outcome.valid.injEq] at hother
    obtain rfl := hother
    rw [hanswer, Except.ok.injEq] at hdigest
    obtain rfl := hdigest
    exact ⟨publicKey, hdecode, hmem⟩
  · rintro ⟨publicKey, hdecode, hmem⟩
    exact ⟨signature, digest, publicKey, hparse, hanswer, hdecode, hmem⟩

-- What is found is the first candidate from `position` on.
theorem findKey_drop_eq_some {candidates : List PublicKey} {reserved found : Nat}
    {rest : List Bytes}
    (hfind : findKey flags candidates reserved position (keys.drop position) =
      .ok (some (found, rest))) :
    position ≤ found ∧ rest = keys.drop (found + 1) ∧
      (∃ key, keys[found]? = some key ∧ isCandidate flags candidates key = true ∧
        PublicKey.checkEncoding flags key = .ok ()) ∧
      ∀ place key, position ≤ place → keys[place]? = some key →
        isCandidate flags candidates key = true → found ≤ place := by
  obtain ⟨skipped, key, hkeys, rfl, -, hskipped, hcandidate, hcheck⟩ := findKey_eq_some hfind
  refine ⟨Nat.le_add_right _ _, ?_, ⟨key, ?_, hcandidate, hcheck⟩, ?_⟩
  · rw [Nat.add_assoc, ← List.drop_drop, hkeys]
    simp
  · rw [← List.getElem?_drop, hkeys]
    simp
  · intro place other hle hother hcandidate
    by_contra hbefore
    have hplace : (keys.drop position)[place - position]? = some other := by
      rw [List.getElem?_drop, Nat.add_sub_cancel' hle, hother]
    rw [hkeys, List.getElem?_append_left (by omega)] at hplace
    have hnot := hskipped other (List.mem_of_getElem? hplace)
    rw [hcandidate] at hnot
    cases hnot

theorem findKey_drop_eq_none {candidates : List PublicKey} {reserved : Nat}
    (hfind : findKey flags candidates reserved position (keys.drop position) = .ok none)
    {place : Nat} {key : Bytes} (hle : position ≤ place) (hroom : place + reserved < keys.length)
    (hkey : keys[place]? = some key) : isCandidate flags candidates key = false := by
  obtain ⟨tried, left, hkeys, hleft, htried⟩ := findKey_eq_none hfind
  have hlength := congrArg List.length hkeys
  rw [List.length_drop, List.length_append] at hlength
  have hplace : (keys.drop position)[place - position]? = some key := by
    rw [List.getElem?_drop, Nat.add_sub_cancel' hle, hkey]
  rw [hkeys, List.getElem?_append_left (by omega)] at hplace
  exact htried key (List.mem_of_getElem? hplace)

-- A search that gives every signature a key assigns it a key that fits and breaks no rule.
theorem search_assigned {signatures : List Bytes} {matched : List (Option Nat)}
    (hsearch : search answer flags signatures position (keys.drop position) = .ok matched)
    (hcomplete : complete signatures.length matched = true) :
    ∃ choice, matched = choice.map some ∧
      Assigned (fun blob key => Fits answer flags blob key ∧
        PublicKey.checkEncoding flags key = .ok ()) keys position signatures choice := by
  induction signatures generalizing position matched with
  | nil =>
      cases hsearch
      exact ⟨[], rfl, .nil _⟩
  | cons blob later ih =>
      cases turn_of_search hsearch with
      | few => cases hcomplete
      | unreadable => rw [complete_none] at hcomplete; cases hcomplete
      | unmatched => rw [complete_none] at hcomplete; cases hcomplete
      | matched _ hparse hanswer hfind htail =>
          obtain ⟨hle, rfl, ⟨key, hkey, hcandidate, hcheck⟩, -⟩ := findKey_drop_eq_some hfind
          rw [List.length_cons, complete_some] at hcomplete
          obtain ⟨choice, rfl, hassigned⟩ := ih htail hcomplete
          exact ⟨_ :: choice, rfl,
            .cons hle hkey ⟨(fits_iff hparse hanswer).mpr hcandidate, hcheck⟩ hassigned⟩

-- The exchange: the key found is not after the key of any other choice, so what is left for the
-- signatures after it contains what the other choice uses.
theorem search_least {signatures : List Bytes} {matched : List (Option Nat)} {choice : List Nat}
    (hsearch : search answer flags signatures position (keys.drop position) = .ok matched)
    (hassigned : Assigned (Fits answer flags) keys position signatures choice) :
    ∃ taken, matched = taken.map some ∧ List.Forall₂ (· ≤ ·) taken choice := by
  induction signatures generalizing position matched choice with
  | nil =>
      cases hsearch
      cases hassigned with
      | nil => exact ⟨[], rfl, .nil⟩
  | cons blob later ih =>
      cases hassigned with
      | cons hle hkey hfits hlater =>
          rename_i place key choice
          obtain ⟨hlt, -⟩ := List.getElem?_eq_some_iff.mp hkey
          have hroom := hlater.room hlt
          cases turn_of_search hsearch with
          | few hfew =>
              rw [List.length_drop] at hfew
              omega
          | unreadable _ hparse =>
              obtain ⟨signature, _, _, hvalid, -⟩ := hfits
              rw [hparse] at hvalid
              cases hvalid
          | unmatched _ hparse hanswer hfind =>
              have hnot := findKey_drop_eq_none hfind hle (by omega) hkey
              rw [(fits_iff hparse hanswer).mp hfits] at hnot
              cases hnot
          | matched _ hparse hanswer hfind htail =>
              obtain ⟨-, rfl, -, hfirst⟩ := findKey_drop_eq_some hfind
              have hfound := hfirst place key hle hkey ((fits_iff hparse hanswer).mp hfits)
              obtain ⟨taken, rfl, htaken⟩ := ih htail (hlater.weaken (Nat.succ_le_succ hfound))
              exact ⟨_ :: taken, rfl, .cons hfound htaken⟩

theorem complete_map_some (taken : List Nat) : complete taken.length (taken.map some) = true := by
  simp [complete]

theorem complete_of_assigned {signatures : List Bytes} {matched : List (Option Nat)}
    {choice : List Nat}
    (hsearch : search answer flags signatures position (keys.drop position) = .ok matched)
    (hassigned : Assigned (Fits answer flags) keys position signatures choice) :
    complete signatures.length matched = true := by
  obtain ⟨taken, rfl, htaken⟩ := search_least hsearch hassigned
  rw [← hassigned.length_eq, ← htaken.length_eq]
  exact complete_map_some taken

theorem le_of_forall₂_ofFn {count : Nat} {first second : Fin count → Nat}
    (hforall : List.Forall₂ (· ≤ ·) (List.ofFn first) (List.ofFn second)) (index : Fin count) :
    first index ≤ second index := by
  have hle := hforall.get (i := index) (by simp) (by simp)
  simpa using hle

-- Matching in order is complete: it fails only if there is no assignment at all. The assignment it
-- finds is the least one, key by key.
theorem matchSignatures_greedy (answer : HashType → List Bytes → Except DigestError Digest)
    (flags : Flags) (signatures keys : List Bytes) {log after : DigestLog} {matched : Matches}
    (hmatched : matchSignatures (.stateless answer) flags signatures keys log =
      .ok matched after) :
    (matched.isSatisfied signatures.length = true ↔
      ∃ choice, Assignment (Fits (answer · signatures) flags) signatures keys choice) ∧
    (matched.isSatisfied signatures.length = true →
      ∃ least, matched.keys = (List.ofFn fun index => some (least index).val) ∧
        Assignment (Fits (answer · signatures) flags) signatures keys least ∧
        (∀ choice, Assignment (Fits (answer · signatures) flags) signatures keys choice →
          ∀ index, least index ≤ choice index) ∧
        ∀ index, PublicKey.checkEncoding flags keys[least index] = .ok ()) := by
  have hsearch : search (answer · signatures) flags signatures 0 (keys.drop 0) =
      .ok matched.keys := by
    have hverdict := verdict_matchSignatures answer flags signatures keys log
    rw [hmatched] at hverdict
    rw [List.drop_zero]
    cases hresult : search (answer · signatures) flags signatures 0 keys with
    | error fault =>
        rw [hresult] at hverdict
        cases hverdict
    | ok keys =>
        rw [hresult] at hverdict
        cases hverdict
        rfl
  have hsatisfied : matched.isSatisfied signatures.length =
      complete signatures.length matched.keys := isSatisfied_eq_complete hsearch _
  rw [hsatisfied]
  have hleast (hcomplete : complete signatures.length matched.keys = true) :
      ∃ least, matched.keys = (List.ofFn fun index => some (least index).val) ∧
        Assignment (fun blob key => Fits (answer · signatures) flags blob key ∧
          PublicKey.checkEncoding flags key = .ok ()) signatures keys least := by
    obtain ⟨choice, hchoice, hassigned⟩ := search_assigned hsearch hcomplete
    obtain ⟨least, hassignment, rfl⟩ := hassigned.exists_assignment
    exact ⟨least, by rw [hchoice, List.map_ofFn]; rfl, hassignment⟩
  constructor
  · constructor
    · intro hcomplete
      obtain ⟨least, -, hassignment⟩ := hleast hcomplete
      exact ⟨least, hassignment.increasing, fun index => (hassignment.fits_at index).1⟩
    · rintro ⟨choice, hassignment⟩
      exact complete_of_assigned hsearch hassignment.assigned
  · intro hcomplete
    obtain ⟨least, hkeys, hassignment⟩ := hleast hcomplete
    refine ⟨least, hkeys, ⟨hassignment.increasing, fun index => (hassignment.fits_at index).1⟩,
      ?_, fun index => (hassignment.fits_at index).2⟩
    intro choice hchoice index
    obtain ⟨taken, htaken, hle⟩ := search_least hsearch hchoice.assigned
    obtain rfl : taken = List.ofFn fun index => (least index).val := by
      apply List.map_injective_iff.mpr (Option.some_injective Nat)
      rw [← htaken, hkeys, List.map_ofFn]
      rfl
    exact le_of_forall₂_ofFn hle index

-- A key that can not be read is passed over.
theorem matchSignatures_greedy_generator :
    ∃ least : Fin 1 → Fin 2, [some 1] = (List.ofFn fun index => some (least index).val) ∧
      Assignment (Fits (fun _ => .ok zeroDigest) Flags.none) [generatorSignature] [[], generatorKey]
        least := by
  have hverdict : verdict (matchSignatures (.stateless fun _ _ => .ok zeroDigest) Flags.none
      [generatorSignature] [[], generatorKey] []) = .ok ⟨[some 1]⟩ := by
    decide +kernel
  cases hmatched : matchSignatures (.stateless fun _ _ => .ok zeroDigest) Flags.none
      [generatorSignature] [[], generatorKey] [] with
  | error fault after =>
      rw [hmatched] at hverdict
      cases hverdict
  | ok matched after =>
      rw [hmatched] at hverdict
      cases hverdict
      obtain ⟨-, hleast⟩ := matchSignatures_greedy (fun _ _ => .ok zeroDigest) Flags.none
        [generatorSignature] [[], generatorKey] hmatched
      obtain ⟨least, hkeys, hassignment, -⟩ := hleast rfl
      exact ⟨least, hkeys, hassignment⟩

end SigOps.Multisig
