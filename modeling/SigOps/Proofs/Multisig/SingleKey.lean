import SigOps.Proofs.Checksig
import SigOps.Proofs.Ecdsa.Recovery
import SigOps.Proofs.Multisig.Assignment
import SigOps.Proofs.Multisig.Judgement

namespace SigOps

-- What both ask of a signature and a key.
def Accepts (answer : HashType → Except DigestError Digest) (flags : Flags) (blob key : Bytes) :
    Prop :=
  PublicKey.checkEncoding flags key = .ok () ∧ Multisig.Fits answer flags blob key

namespace Checksig

variable {answer : HashType → Except DigestError Digest} {flags : Flags} {blob key : Bytes}

theorem verified_eq_true_iff :
    verified answer flags blob key = .ok (.valid true) ↔ Multisig.Fits answer flags blob key := by
  constructor
  · intro hverified
    obtain ⟨outcome, hparse, hverified⟩ := bind_eq_ok_iff.mp hverified
    cases outcome with
    | invalid reason => cases hverified
    | valid signature =>
        cases hdecode : PublicKey.decodeUnder flags key with
        | error fault =>
            simp only [hdecode] at hverified
            cases hverified
        | ok publicKey =>
            simp only [hdecode] at hverified
            obtain ⟨digest, hdigest, hverified⟩ := bind_eq_ok_iff.mp hverified
            have hverify : Ecdsa.verify publicKey digest signature.pair = true :=
              Outcome.valid.inj (Except.ok.inj hverified)
            exact ⟨signature, digest, publicKey, hparse, mapError_eq_ok_iff.mp hdigest, hdecode,
              (Ecdsa.mem_possibleKeys_iff publicKey digest signature.pair).mpr hverify⟩
  · intro hfits
    obtain ⟨signature, digest, publicKey, hparse, hanswer, hdecode, hmem⟩ := hfits
    have hverify := (Ecdsa.mem_possibleKeys_iff publicKey digest signature.pair).mp hmem
    refine bind_eq_ok_iff.mpr ⟨.valid signature, hparse, ?_⟩
    simp only [hdecode]
    refine bind_eq_ok_iff.mpr ⟨digest, mapError_eq_ok_iff.mpr hanswer, ?_⟩
    exact congrArg (fun success => Except.ok (Outcome.valid success)) hverify

theorem checked_eq_true_iff :
    checked answer flags blob key = .ok true ↔ Accepts answer flags blob key := by
  constructor
  · intro hchecked
    obtain ⟨_, hcheck, hchecked⟩ := bind_eq_ok_iff.mp hchecked
    obtain ⟨outcome, hverified, hchecked⟩ := bind_eq_ok_iff.mp hchecked
    cases outcome with
    | invalid reason => cases hchecked
    | valid success =>
        obtain ⟨_, -, hchecked⟩ := bind_eq_ok_iff.mp hchecked
        cases hchecked
        exact ⟨hcheck, verified_eq_true_iff.mp hverified⟩
  · intro haccepts
    obtain ⟨hcheck, hfits⟩ := haccepts
    have hnullFail : flags.whenEnforced .nullFail (checkNullFail true blob) = .ok () := by
      simp [Flags.whenEnforced, checkNullFail]
    exact bind_eq_ok_iff.mpr ⟨(), hcheck, bind_eq_ok_iff.mpr ⟨.valid true,
      verified_eq_true_iff.mpr hfits, bind_eq_ok_iff.mpr ⟨(), hnullFail, rfl⟩⟩⟩

end Checksig

namespace Multisig

variable {answer : HashType → Except DigestError Digest} {flags : Flags} {blob key : Bytes}

theorem searchAll_single (position : Nat) :
    searchAll answer flags [blob] position [key] = (do
      match ← Signature.parse flags blob with
      | .invalid _ => .ok false
      | .valid signature =>
          let digest ← (answer signature.hashType).mapError ScriptError.digest
          PublicKey.checkEncoding flags key
          .ok (isCandidate flags (Ecdsa.possibleKeys digest signature.pair) key)) := by
  rw [searchAll_cons, if_neg (by simp)]
  congr 1
  funext outcome
  cases outcome with
  | invalid reason => rfl
  | valid signature =>
      simp only []
      congr 1
      funext digest
      rw [findKey, if_neg (by simp)]
      cases PublicKey.checkEncoding flags key with
      | error fault => rfl
      | ok =>
          cases isCandidate flags (Ecdsa.possibleKeys digest signature.pair) key with
          | true => rfl
          | false => rfl

theorem searchAll_single_eq_true_iff {position : Nat} :
    searchAll answer flags [blob] position [key] = .ok true ↔ Accepts answer flags blob key := by
  rw [searchAll_single]
  constructor
  · intro hsearch
    obtain ⟨outcome, hparse, hsearch⟩ := bind_eq_ok_iff.mp hsearch
    cases outcome with
    | invalid reason => cases hsearch
    | valid signature =>
        obtain ⟨digest, hdigest, hsearch⟩ := bind_eq_ok_iff.mp hsearch
        obtain ⟨_, hcheck, hsearch⟩ := bind_eq_ok_iff.mp hsearch
        rw [Except.ok.injEq] at hsearch
        exact ⟨hcheck, (fits_iff hparse (mapError_eq_ok_iff.mp hdigest)).mpr hsearch⟩
  · intro haccepts
    obtain ⟨hcheck, hfits⟩ := haccepts
    obtain ⟨signature, digest, publicKey, hparse, hanswer, -⟩ := id hfits
    have hcandidate := (fits_iff hparse hanswer).mp hfits
    refine bind_eq_ok_iff.mpr ⟨.valid signature, hparse, ?_⟩
    refine bind_eq_ok_iff.mpr ⟨digest, mapError_eq_ok_iff.mpr hanswer, ?_⟩
    exact bind_eq_ok_iff.mpr ⟨(), hcheck, congrArg Except.ok hcandidate⟩

theorem exists_searchAll_none (digestOf : HashType → Digest) (blob : Bytes) (position : Nat)
    (key : Bytes) :
    ∃ success, searchAll (fun hashType => .ok (digestOf hashType)) Flags.none [blob] position
      [key] = .ok success := by
  obtain ⟨outcome, hparse⟩ := Signature.exists_parse_none blob
  rw [searchAll_single, hparse]
  cases outcome with
  | invalid reason => exact ⟨false, rfl⟩
  | valid signature => exact ⟨_, rfl⟩

theorem laid_single {machine : Machine} {blob key : Bytes} {base : List Bytes}
    (hitems : machine.stack.items =
      ScriptNum.encode 1 :: key :: ScriptNum.encode 1 :: blob :: [] :: base)
    (hops : machine.opCount.toNat < maxOpsPerScript) : Laid machine ⟨[blob], [key], []⟩ base := by
  obtain ⟨⟨items, minimal⟩, opCount, log⟩ := machine
  obtain rfl : items = Operands.pushed ⟨[blob], [key], []⟩ base := hitems
  exact laid_pushed (Nat.le_refl 1) (by simp [maxKeysPerMultisig]) hops

section Evaluation

variable {machine : Machine} {operands : Operands} {base : List Bytes}
variable (answer : HashType → List Bytes → Except DigestError Digest)

theorem verdict_eval_eq_true_iff (flags : Flags) (hlaid : Laid machine operands base)
    (hdummy : operands.dummy = []) :
    verdict (eval (.stateless answer) flags machine) = .ok true ↔
      searchAll (answer · operands.signatures) flags operands.signatures 0 operands.keys =
        .ok true := by
  rw [← satisfied_eq_searchAll answer flags operands.signatures operands.keys machine.log]
  exact (concluded_of_laid _ flags hlaid hdummy).verdict_eq_true_iff

theorem verdict_eval_of_lenient {flags : Flags} (hrule : flags.enforces .nullFail = false)
    (hlaid : Laid machine operands base) (hdummy : operands.dummy = []) :
    verdict (eval (.stateless answer) flags machine) =
      searchAll (answer · operands.signatures) flags operands.signatures 0 operands.keys := by
  rw [← satisfied_eq_searchAll answer flags operands.signatures operands.keys machine.log]
  exact (concluded_of_laid _ flags hlaid hdummy).verdict_eq hrule

end Evaluation

-- One check looks for the key among those recovered from the signature, the other verifies the
-- signature under the key, and the steps before that come in another order. A signature is accepted
-- by one if and only if the other accepts it. Where no rule stops either of them and every digest
-- is there, they give the same result.
theorem eval_single_key (answer : HashType → List Bytes → Except DigestError Digest)
    (flags : Flags) {single many : Machine} {blob key : Bytes} {base base' : List Bytes}
    (hsingle : single.stack.items = key :: blob :: base)
    (hmany : many.stack.items =
      ScriptNum.encode 1 :: key :: ScriptNum.encode 1 :: blob :: [] :: base')
    (hops : many.opCount.toNat < maxOpsPerScript) :
    (verdict (Checksig.eval (.stateless answer) flags single) = .ok true ↔
      verdict (eval (.stateless answer) flags many) = .ok true) ∧
    ∀ digestOf : HashType → List Bytes → Digest,
      ∃ success, verdict (Checksig.eval (.total digestOf) Flags.none single) = .ok success ∧
        verdict (eval (.total digestOf) Flags.none many) = .ok success := by
  have hlaid := laid_single hmany hops
  constructor
  · rw [Checksig.verdict_eval hsingle, Checksig.checked_eq_true_iff,
      verdict_eval_eq_true_iff answer flags hlaid rfl, searchAll_single_eq_true_iff]
  · intro digestOf
    obtain ⟨success, hchecked⟩ := Checksig.exists_checked_none (digestOf · [blob]) blob key
    obtain ⟨success', hsearch⟩ := exists_searchAll_none (digestOf · [blob]) blob 0 key
    have hsame : success = success' := by
      rw [Bool.eq_iff_iff]
      calc success = true
          ↔ Checksig.checked (fun hashType => .ok (digestOf hashType [blob])) Flags.none blob key =
              .ok true := by rw [hchecked, Except.ok.injEq]
        _ ↔ Accepts (fun hashType => .ok (digestOf hashType [blob])) Flags.none blob key :=
            Checksig.checked_eq_true_iff
        _ ↔ searchAll (fun hashType => .ok (digestOf hashType [blob])) Flags.none [blob] 0 [key] =
              .ok true := searchAll_single_eq_true_iff.symm
        _ ↔ success' = true := by rw [hsearch, Except.ok.injEq]
    refine ⟨success, (Checksig.verdict_eval hsingle _ _).trans hchecked, ?_⟩
    rw [hsame]
    exact (verdict_eval_of_lenient _ rfl hlaid rfl).trans hsearch

-- The two checks of a signature under the key it was made with.
theorem eval_single_key_generator :
    verdict (Checksig.eval (.stateless fun _ _ => .ok zeroDigest) Flags.none
      ⟨⟨[generatorKey, generatorSignature], true⟩, 0, []⟩) = .ok true ∧
    verdict (eval (.stateless fun _ _ => .ok zeroDigest) Flags.none
      ⟨⟨[ScriptNum.encode 1, generatorKey, ScriptNum.encode 1, generatorSignature, []], true⟩, 200,
        []⟩) = .ok true := by
  have hsingle : verdict (Checksig.eval (.stateless fun _ _ => .ok zeroDigest) Flags.none
      ⟨⟨[generatorKey, generatorSignature], true⟩, 0, []⟩) = .ok true := by
    decide +kernel
  obtain ⟨hiff, -⟩ := @eval_single_key (fun _ _ => .ok zeroDigest) Flags.none
    ⟨⟨[generatorKey, generatorSignature], true⟩, 0, []⟩
    ⟨⟨[ScriptNum.encode 1, generatorKey, ScriptNum.encode 1, generatorSignature, []], true⟩,
      200, []⟩
    generatorSignature generatorKey [] [] rfl rfl (by decide)
  exact ⟨hsingle, hiff.mp hsingle⟩

end Multisig

end SigOps
