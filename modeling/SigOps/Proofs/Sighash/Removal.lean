import SigOps.Proofs.Script.Deletion
import SigOps.Sighash

namespace SigOps

namespace Sighash.Legacy

open Script

-- The operation pushes one of the signatures.
def pushesAny (signatures : List Bytes) (operation : Bytes) : Bool :=
  signatures.any fun signature => push? signature == some operation

-- The operations that push no signature, in order, and what follows the last complete operation.
def withoutPushes (signatures : List Bytes) (scriptCode : Bytes) : Bytes :=
  ((parts scriptCode).operations.filter fun operation => !pushesAny signatures operation).flatten ++
    (parts scriptCode).tail

theorem withoutPushes_eq (signatures : List Bytes) (scriptCode : Bytes) :
    withoutPushes signatures scriptCode =
      ((parts scriptCode).keep fun operation => !pushesAny signatures operation).toBytes :=
  rfl

theorem removeSignature_toBytes {signature pattern : Bytes}
    (hpush : push? signature = some pattern) (parts : Parts) :
    removeSignature parts.toBytes signature = .ok (parts.keep (· != pattern)).toBytes := by
  simp only [removeSignature, hpush, delete_toBytes (isOperation_push hpush)]

theorem removeSignatures_toBytes {signatures : List Bytes}
    (hsizes : ∀ signature ∈ signatures, signature.length < 0x100000000) (parts : Parts) :
    removeSignatures signatures parts.toBytes =
      .ok (parts.keep fun operation => !pushesAny signatures operation).toBytes := by
  -- on the signatures: one removal leaves operations that the later ones filter again
  induction signatures generalizing parts with
  | nil =>
      have hall : (parts.keep fun operation => !pushesAny [] operation) = parts := parts.keep_all
      rw [hall]
      rfl
  | cons signature later ih =>
      obtain ⟨hsize, hlater⟩ := List.forall_mem_cons.mp hsizes
      obtain ⟨pattern, hpush⟩ := exists_push hsize
      have hwanted (operation : Bytes) : (operation != pattern && !pushesAny later operation) =
          !pushesAny (signature :: later) operation := by
        rw [pushesAny, pushesAny, List.any_cons, hpush, Bool.not_or, Option.some_beq_some, bne,
          Bool.beq_comm]
      rw [removeSignatures, List.foldlM_cons, removeSignature_toBytes hpush]
      calc removeSignatures later (parts.keep (· != pattern)).toBytes
          = .ok ((parts.keep (· != pattern)).keep fun operation =>
              !pushesAny later operation).toBytes := ih hlater _
        _ = .ok (parts.keep fun operation =>
              !pushesAny (signature :: later) operation).toBytes := by
            rw [Parts.keep_keep, funext hwanted]

theorem removeSignatures_eq {signatures : List Bytes}
    (hsizes : ∀ signature ∈ signatures, signature.length < 0x100000000) (scriptCode : Bytes) :
    removeSignatures signatures scriptCode = .ok (withoutPushes signatures scriptCode) := by
  rw [withoutPushes_eq, ← removeSignatures_toBytes hsizes, toBytes_parts]

theorem pushesAny_congr {signatures others : List Bytes}
    (hsame : ∀ signature, signature ∈ others ↔ signature ∈ signatures) :
    pushesAny others = pushesAny signatures := by
  funext operation
  rw [Bool.eq_iff_iff, pushesAny, pushesAny, List.any_eq_true, List.any_eq_true]
  simp only [hsame]

theorem withoutPushes_congr {signatures others : List Bytes}
    (hsame : ∀ signature, signature ∈ others ↔ signature ∈ signatures) (scriptCode : Bytes) :
    withoutPushes others scriptCode = withoutPushes signatures scriptCode := by
  rw [withoutPushes, withoutPushes, pushesAny_congr hsame]

theorem found_delete_eq_count {signature pattern : Bytes} (hpush : push? signature = some pattern)
    (script : Bytes) :
    (delete pattern script).found = (parts script).operations.count pattern := by
  have hdelete := delete_toBytes (isOperation_push hpush) (parts script)
  rw [toBytes_parts] at hdelete
  rw [hdelete]

theorem found_delete_withoutPushes {signatures : List Bytes} {signature pattern : Bytes}
    (hmem : signature ∈ signatures) (hpush : push? signature = some pattern) (scriptCode : Bytes) :
    (delete pattern (withoutPushes signatures scriptCode)).found = 0 := by
  rw [found_delete_eq_count hpush, withoutPushes_eq, parts_toBytes, List.count_eq_zero]
  intro hkept
  have hunpushed := (List.mem_filter.mp hkept).2
  have hpushed : pushesAny signatures pattern = true :=
    List.any_eq_true.mpr ⟨signature, hmem, by rw [hpush, beq_self_eq_true]⟩
  rw [hpushed] at hunpushed
  cases hunpushed

end Sighash.Legacy

namespace Spending

open Script Sighash.Legacy

theorem digest_base_eq {spending : Spending} (hbase : spending.version = .base)
    (hashType : HashType) {signatures : List Bytes}
    (hsizes : ∀ signature ∈ signatures, signature.length < 0x100000000) :
    spending.digest hashType signatures =
      Sighash.Legacy.digest spending.transaction spending.inputIndex
        (withoutPushes signatures spending.scriptCode) hashType := by
  simp only [digest, hbase, removeSignatures_eq hsizes]
  rfl

-- The script code that the base version hashes is what the set of the signatures leaves of it.
-- Their pushes occur there no more, and deleting a push removes it as often as it is an operation.
theorem digest_base_without_pushes (spending : Spending) (hbase : spending.version = .base)
    (hashType : HashType) (signatures : List Bytes)
    (hsizes : ∀ signature ∈ signatures, signature.length < 0x100000000) :
    removeSignatures signatures spending.scriptCode =
        .ok (withoutPushes signatures spending.scriptCode) ∧
      spending.digest hashType signatures =
        Sighash.Legacy.digest spending.transaction spending.inputIndex
          (withoutPushes signatures spending.scriptCode) hashType ∧
      (∀ others, (∀ signature, signature ∈ others ↔ signature ∈ signatures) →
        spending.digest hashType others = spending.digest hashType signatures) ∧
      ∀ signature ∈ signatures, ∃ pattern, push? signature = some pattern ∧
        (delete pattern (withoutPushes signatures spending.scriptCode)).found = 0 ∧
        ∀ script, (delete pattern script).found = (parts script).operations.count pattern := by
  refine ⟨removeSignatures_eq hsizes _, digest_base_eq hbase hashType hsizes, ?_, ?_⟩
  · intro others hsame
    have hothers : ∀ signature ∈ others, signature.length < 0x100000000 :=
      fun signature hmem => hsizes signature ((hsame signature).mp hmem)
    rw [digest_base_eq hbase hashType hothers, digest_base_eq hbase hashType hsizes,
      withoutPushes_congr hsame]
  · intro signature hmem
    obtain ⟨pattern, hpush⟩ := exists_push (hsizes signature hmem)
    exact ⟨pattern, hpush, found_delete_withoutPushes hmem hpush _, found_delete_eq_count hpush⟩

-- Two signatures, one of them empty and the other given twice.
def repeatedSignatures : List Bytes := [[0xab, 0xcd], [], [0xab, 0xcd]]

-- Both are pushed. The longer one also occurs in a longer push and in one that is cut short.
def pushingScript : Parts :=
  ⟨[[0x02, 0xab, 0xcd], [0x4c, 0x02, 0xab, 0xcd], [0x00], [0xac]], [0x03, 0x02, 0xab],
    by decide, by decide⟩

def pushingSpending : Spending :=
  { transaction := ⟨1, [⟨⟨List.replicate 32 0, 0⟩, [], 0⟩], [], 0⟩
    inputIndex := 0
    amount := 0
    scriptCode := pushingScript.toBytes
    version := .base }

theorem digest_base_without_pushes_repeated :
    pushingSpending.version = .base ∧
      (∀ signature ∈ repeatedSignatures, signature.length < 0x100000000) ∧
      removeSignatures repeatedSignatures pushingSpending.scriptCode =
        .ok [0x4c, 0x02, 0xab, 0xcd, 0xac, 0x03, 0x02, 0xab] ∧
      pushingSpending.digest .all [[], [0xab, 0xcd]] =
        pushingSpending.digest .all repeatedSignatures := by
  have hsizes : ∀ signature ∈ repeatedSignatures, signature.length < 0x100000000 := by decide
  obtain ⟨hremoved, -, hsame, -⟩ :=
    digest_base_without_pushes pushingSpending rfl .all repeatedSignatures hsizes
  have hscript : withoutPushes repeatedSignatures pushingSpending.scriptCode =
      [0x4c, 0x02, 0xab, 0xcd, 0xac, 0x03, 0x02, 0xab] := by
    rw [withoutPushes, pushingSpending, parts_toBytes]
    decide
  refine ⟨rfl, hsizes, hscript ▸ hremoved, hsame _ ?_⟩
  intro signature
  simp only [repeatedSignatures, List.mem_cons, List.not_mem_nil, or_false]
  tauto

end Spending

end SigOps
