import SigOps.Proofs.Checksig
import SigOps.Proofs.Ecdsa.Recovery
import SigOps.Proofs.Multisig.Assignment
import SigOps.Proofs.Signature.Blob
import SigOps.Proofs.Signature.Der.Grammar

namespace SigOps

open Curve

-- Negation keeps the scalars other than zero apart from zero.
theorem Ecdsa.ne_zero_of_verify {key : PublicKey} {digest : Digest} {pair : Pair}
    (hverify : verify key digest pair = true) : pair.r ≠ 0 ∧ pair.s ≠ 0 := by
  obtain ⟨hr, hs, -⟩ := (verify_iff key digest pair).mp hverify
  unfold Pair.normalize at hr hs
  by_cases hhigh : pair.isHighS = true
  · rw [if_pos hhigh] at hr hs
    exact ⟨hr, neg_ne_zero.mp hs⟩
  · rw [if_neg hhigh] at hr hs
    exact ⟨hr, hs⟩

namespace Signature

-- The blob spells these two integers and no others. They are in range, and they are the pair that
-- is read from it.
structure Genuine (flags : Flags) (blob : Bytes) (r s : Nat) : Prop where
  spelled (r' s' : Nat) : Der.Lax.Spells r' s' blob.dropLast ↔ r' = r ∧ s' = s
  range_r : 1 ≤ r ∧ r < groupOrder
  range_s : 1 ≤ s ∧ s < groupOrder
  parsed : ∃ signature, parse flags blob = .ok (.valid signature) ∧
    signature.pair.r.val = r ∧ signature.pair.s.val = s

variable {flags : Flags} {blob : Bytes} {signature : Signature}

theorem spells_of_parse (hparse : parse flags blob = .ok (.valid signature)) :
    ∃ r s, Der.Lax.Spells r s blob.dropLast ∧ Der.Lax.pairOf r s = signature.pair := by
  cases parsed_of_parse hparse with
  | valid _ _ _ hdecode =>
      obtain ⟨contentR, contentS, hlayout, hpair⟩ := Der.Lax.decode_eq_ok_iff.mp hdecode
      exact ⟨_, _, ⟨contentR, contentS, hlayout, rfl, rfl⟩, hpair⟩

theorem range_of_ne_zero {scalar : Scalar} (hscalar : scalar ≠ 0) :
    1 ≤ scalar.val ∧ scalar.val < groupOrder :=
  ⟨Nat.one_le_iff_ne_zero.mpr (Fin.val_ne_zero_iff.mpr hscalar), scalar.isLt⟩

-- Integers out of range are read as a pair of zeros, which verifies under no key.
theorem genuine_of_verify (hparse : parse flags blob = .ok (.valid signature)) {key : PublicKey}
    {digest : Digest} (hverify : Ecdsa.verify key digest signature.pair = true) :
    ∃ r s, Genuine flags blob r s := by
  obtain ⟨hr, hs⟩ := Ecdsa.ne_zero_of_verify hverify
  obtain ⟨r, s, hspells, hpair⟩ := spells_of_parse hparse
  rcases Der.Lax.val_pairOf_or r s with ⟨hvalR, hvalS⟩ | ⟨hzero, -⟩
  · rw [hpair] at hvalR hvalS
    subst hvalR hvalS
    refine ⟨_, _, fun r' s' => ⟨hspells.unique, ?_⟩, range_of_ne_zero hr, range_of_ne_zero hs,
      signature, hparse, rfl, rfl⟩
    rintro ⟨rfl, rfl⟩
    exact hspells
  · rw [← hpair, hzero] at hr
    exact absurd rfl hr

end Signature

namespace Checksig

variable {source : DigestSource} {flags : Flags} {blob key : Bytes} {log after : DigestLog}

theorem genuine_of_verifySignature
    (hverify : verifySignature source flags blob key log = .ok (.valid true) after) :
    ∃ r s, Signature.Genuine flags blob r s := by
  obtain ⟨parsed, _, hparsed, hrest⟩ := run_bind_eq_ok_iff.mp hverify
  obtain ⟨hparse, rfl⟩ := run_ofExcept_eq_ok_iff.mp hparsed
  cases parsed with
  | invalid reason => cases hrest
  | valid signature =>
      simp only [] at hrest
      cases hdecode : PublicKey.decodeUnder flags key with
      | error fault =>
          rw [hdecode] at hrest
          cases hrest
      | ok publicKey =>
          rw [hdecode] at hrest
          obtain ⟨digest, _, -, hresult⟩ := run_bind_eq_ok_iff.mp hrest
          obtain ⟨hvalid, -⟩ := EStateM.Result.ok.inj hresult
          exact Signature.genuine_of_verify hparse (Outcome.valid.inj hvalid)

theorem genuine_of_checkSignature
    (hcheck : checkSignature source flags blob key log = .ok true after) :
    ∃ r s, Signature.Genuine flags blob r s := by
  obtain ⟨_, _, -, hcheck⟩ := run_bind_eq_ok_iff.mp hcheck
  obtain ⟨outcome, _, hverify, hcheck⟩ := run_bind_eq_ok_iff.mp hcheck
  cases outcome with
  | invalid reason => cases hcheck
  | valid success =>
      obtain ⟨_, _, -, hresult⟩ := run_bind_eq_ok_iff.mp hcheck
      cases hresult
      exact genuine_of_verifySignature hverify

theorem genuine_of_eval {machine popped : Machine}
    (heval : eval source flags machine = .ok true popped) :
    ∃ key blob base, machine.stack.items = key :: blob :: base ∧
      ∃ r s, Signature.Genuine flags blob r s := by
  rcases eval_cases source flags machine with ⟨-, hfault⟩ | ⟨blob, key, hitems, hcheck⟩
  · rw [hfault] at heval
    cases heval
  · have hverdict := congrArg verdict (hcheck.symm.trans heval)
    rw [Machine.verdict_onLog] at hverdict
    obtain ⟨_, hchecked⟩ := exists_state_of_verdict hverdict
    exact ⟨key, blob, _, hitems, genuine_of_checkSignature hchecked⟩

end Checksig

namespace Multisig

-- A key is a candidate only of a signature that verifies under it.
theorem genuine_of_findKey {flags : Flags} {blob : Bytes} {signature : Signature} {digest : Digest}
    {reserved position found : Nat} {keys rest : List Bytes}
    (hparse : Signature.parse flags blob = .ok (.valid signature))
    (hfind : findKey flags (Ecdsa.possibleKeys digest signature.pair) reserved position keys =
      .ok (some (found, rest))) :
    ∃ r s, Signature.Genuine flags blob r s := by
  obtain ⟨_, _, -, -, -, -, hcandidate, -⟩ := findKey_eq_some hfind
  obtain ⟨publicKey, -, hmem⟩ := isCandidate_iff.mp hcandidate
  exact Signature.genuine_of_verify hparse ((Ecdsa.mem_possibleKeys_iff _ _ _).mp hmem)

theorem Course.genuine {σ : Type} {digestOf : HashType → EStateM ScriptError σ Digest}
    {flags : Flags} {signatures keys : List Bytes} {position : Nat} {state after : σ}
    {matched : List (Option Nat)}
    (hcourse : Course digestOf flags signatures position keys state matched after)
    {index place : Nat}
    (hplace : matched[index]? = some (some place)) :
    ∃ blob, signatures[index]? = some blob ∧ ∃ r s, Signature.Genuine flags blob r s := by
  induction hcourse generalizing index with
  | done | few => cases hplace
  | unreadable | unmatched => cases index <;> cases hplace
  | matched _ hparse _ hfind _ ih =>
      cases index with
      | zero => exact ⟨_, rfl, genuine_of_findKey hparse hfind⟩
      | succ index => exact ih hplace

end Multisig

-- What the check of one signature accepts is genuine, and so is what the check of many gives a key.
-- However the integers are spelled, none is reduced, cut or replaced on the way to the curve.
theorem accepted_genuine (source : DigestSource) (flags : Flags) :
    (∀ machine popped, Checksig.eval source flags machine = .ok true popped →
      ∃ key blob base, machine.stack.items = key :: blob :: base ∧
        ∃ r s, Signature.Genuine flags blob r s) ∧
    ∀ (signatures keys : List Bytes) (log extended : DigestLog) (matched : Multisig.Matches),
      Multisig.matchSignatures source flags signatures keys log = .ok matched extended →
        ∀ index place : Nat, matched.keys[index]? = some (some place) →
          ∃ blob, signatures[index]? = some blob ∧ ∃ r s, Signature.Genuine flags blob r s := by
  refine ⟨fun machine popped heval => Checksig.genuine_of_eval heval, ?_⟩
  intro signatures keys log extended matched hmatch index place hplace
  obtain ⟨_, hcourse, -⟩ := Multisig.matchSignatures_eq_ok_iff.mp hmatch
  exact hcourse.genuine hplace

namespace Multisig

-- The same signature with a sequence length that is not its length, a digit too many in the lengths
-- of the integers, and zeros before the integers.
def paddedSignature : Bytes :=
  [0x30, 0x00, 0x02, 0x82, 0x00, 0x22, 0x00, 0x00] ++ Bytes.fixedBE 32 generatorX.val ++
    [0x02, 0x81, 0x21, 0x00] ++ Bytes.fixedBE 32 generatorX.val ++ [HashType.all.byte]

end Multisig

-- Both checks accept the padded signature. Its integers are the x coordinate of the generator.
theorem accepted_genuine_padded :
    verdict (Checksig.eval (.constant zeroDigest) Flags.none
      ⟨⟨[generatorKey, Multisig.paddedSignature], true⟩, 0, []⟩) = .ok true ∧
    verdict (Multisig.matchSignatures (.constant zeroDigest) Flags.none [Multisig.paddedSignature]
      [generatorKey] []) = .ok ⟨[some 0]⟩ ∧
    Signature.Genuine Flags.none Multisig.paddedSignature generatorX.val generatorX.val := by
  have hverdict : verdict (Checksig.eval (.constant zeroDigest) Flags.none
      ⟨⟨[generatorKey, Multisig.paddedSignature], true⟩, 0, []⟩) = .ok true := by
    decide +kernel
  have hmatched : verdict (Multisig.matchSignatures (.constant zeroDigest) Flags.none
      [Multisig.paddedSignature] [generatorKey] []) = .ok ⟨[some 0]⟩ := by
    decide +kernel
  have hparse : Signature.parse Flags.none Multisig.paddedSignature =
      .ok (.valid ⟨⟨.ofNat _ generatorX.val, .ofNat _ generatorX.val⟩, .all⟩) := by
    decide +kernel
  obtain ⟨_, hcheck⟩ := exists_state_of_verdict hverdict
  obtain ⟨hsingle, -⟩ := accepted_genuine (.constant zeroDigest) Flags.none
  obtain ⟨_, _, _, hitems, r, s, hgenuine⟩ := hsingle _ _ hcheck
  cases hitems
  obtain ⟨_, hsame, rfl, rfl⟩ := hgenuine.parsed
  rw [hparse] at hsame
  cases hsame
  exact ⟨hverdict, hmatched, hgenuine⟩

end SigOps
