import SigOps.Proofs.Session

namespace SigOps

namespace Call

-- The number of keys that a multisig asks for, if it can be read and is in range.
def keyCount? (call : Call) : Option Nat :=
  if call.opcode.ChecksMany then
    match call.before.stack.numberAt? 0 with
    | some (.ok value) => if 0 ≤ value ∧ value ≤ maxKeysPerMultisig then some value.toNat else none
    | _ => none
  else none

def passesMany (call : Call) : Bool := decide (call.opcode.ChecksMany ∧ call.outcome = .ok ())

variable {call : Call}

theorem keyCount?_of_not_checksMany (hmany : ¬call.opcode.ChecksMany) : call.keyCount? = none :=
  if_neg hmany

theorem keyCount?_of_number (hmany : call.opcode.ChecksMany) {keys : Nat}
    (hnumber : call.before.stack.numberAt? 0 = some (.ok (keys : Int)))
    (hle : keys ≤ maxKeysPerMultisig) : call.keyCount? = some keys := by
  simp [keyCount?, hmany, hnumber, hle]

theorem keyCount?_of_refusal {fault : ScriptError}
    (hrefusal : Multisig.CountRefusal call.before.stack maxKeysPerMultisig .keyCount fault) :
    call.keyCount? = none := by
  cases hrefusal with
  | missing hempty =>
      have hnumber : call.before.stack.numberAt? 0 = none := by
        simpa [Stack.numberAt?, Stack.height] using hempty
      simp [keyCount?, hnumber]
  | unreadable hnumber => simp [keyCount?, hnumber]
  | outOfRange hnumber hrange => simp [keyCount?, hnumber, hrange]

-- The count is charged before the limit is looked at.
theorem keyCount?_of_footprint {taken charged : Nat}
    (hfootprint : Footprint call.opcode call.before taken charged call.outcome) :
    call.keyCount?.getD 0 = charged := by
  generalize call.outcome = outcome at hfootprint
  cases hfootprint with
  | unsupported hone hmany => rw [keyCount?_of_not_checksMany hmany, Option.getD_none]
  | missing hone | checked hone =>
      rw [keyCount?_of_not_checksMany (Opcode.not_checksMany hone), Option.getD_none]
  | matched hmany hkeys =>
      rw [keyCount?_of_number hmany hkeys.number hkeys.le_max, Option.getD_some]
  | refused hmany hrefusal =>
      cases hrefusal with
      | keyCount hrefusal => rw [keyCount?_of_refusal hrefusal, Option.getD_none]
      | opCount hnumber hle => rw [keyCount?_of_number hmany hnumber hle, Option.getD_some]
      | fewKeys hkeys | signatureCount hkeys | fewSignatures hkeys =>
          rw [keyCount?_of_number hmany hkeys.number hkeys.le_max, Option.getD_some]

theorem after_opCount (call : Call) :
    call.after.opCount = call.before.opCount + UInt64.ofNat (call.keyCount?.getD 0) := by
  obtain ⟨taken, charged, pushed, log, hfootprint, -, hafter⟩ := call.exists_footprint
  rw [hafter, keyCount?_of_footprint hfootprint]

-- The keys of the call are counted without an overflow.
def Exact (call : Call) : Prop :=
  call.after.opCount.toNat = call.before.opCount.toNat + call.keyCount?.getD 0

theorem exact_of_fits (hfits : call.before.opCount.toNat + call.keyCount?.getD 0 < 2 ^ 64) :
    call.Exact := by
  rw [Exact, after_opCount, Machine.toNat_count_of_fits hfits]

theorem opCount_le_of_passesMany (hpasses : call.passesMany = true) :
    call.after.opCount.toNat ≤ maxOpsPerScript := by
  obtain ⟨taken, charged, pushed, log, hfootprint, -, hafter⟩ := call.exists_footprint
  obtain ⟨hmany, houtcome⟩ := of_decide_eq_true hpasses
  rw [houtcome] at hfootprint
  cases hfootprint with
  | checked hone => exact absurd hmany (Opcode.not_checksMany hone)
  | matched _ hkeys =>
      rw [hafter]
      exact hkeys.within

theorem not_passesMany (hover : maxOpsPerScript < call.after.opCount.toNat) :
    call.passesMany = false := by
  refine Bool.eq_false_iff.mpr fun hpasses => ?_
  have hlimit := opCount_le_of_passesMany hpasses
  omega

end Call

-- The keys that are counted over several calls.
def countedKeys (calls : List Call) : Nat := (calls.filterMap Call.keyCount?).sum

@[simp] theorem countedKeys_cons (call : Call) (rest : List Call) :
    countedKeys (call :: rest) = call.keyCount?.getD 0 + countedKeys rest := by
  cases hkeys : call.keyCount? with
  | none => simp [countedKeys, hkeys]
  | some keys => simp [countedKeys, hkeys]

namespace Session

-- Everything but the count may change between one call and the next.
abbrev Counted : Machine → List Call → Machine → Prop :=
  Session fun earlier later => later.opCount = earlier.opCount

variable {start last : Machine} {calls : List Call}

-- The count wraps around with the sum.
theorem opCount_eq (hsession : Counted start calls last) :
    last.opCount = start.opCount + UInt64.ofNat (countedKeys calls) := by
  induction hsession with
  | nil machine => exact (UInt64.add_zero _).symm
  | @cons start last call rest hshares _ ih =>
      rw [ih, call.after_opCount, hshares, countedKeys_cons, UInt64.ofNat_add, UInt64.add_assoc]

-- A sum that fits the word overflows nowhere on the way.
theorem exact_of_fits (hsession : Counted start calls last)
    (hfits : start.opCount.toNat + countedKeys calls < 2 ^ 64) : ∀ call ∈ calls, call.Exact := by
  induction hsession with
  | nil machine => simp
  | @cons start last call rest hshares _ ih =>
      rw [countedKeys_cons, ← hshares] at hfits
      have hexact : call.Exact := Call.exact_of_fits (by omega)
      have hrest : call.after.opCount.toNat + countedKeys rest < 2 ^ 64 := by
        rw [hexact]
        omega
      exact List.forall_mem_cons.mpr ⟨hexact, ih hrest⟩

theorem opCount_sorted (hsession : Counted start calls last)
    (hexact : ∀ call ∈ calls, call.Exact) :
    (start.opCount.toNat :: calls.map fun call => call.after.opCount.toNat).Pairwise (· ≤ ·) := by
  induction hsession with
  | nil machine => exact List.pairwise_singleton _ _
  | @cons start last call rest hshares _ ih =>
      obtain ⟨hcharged, hrest⟩ := List.forall_mem_cons.mp hexact
      have hsorted := ih hrest
      rw [Call.Exact, hshares] at hcharged
      rw [List.map_cons]
      refine .cons ?_ hsorted
      intro opCount hmem
      rcases List.mem_cons.mp hmem with hmem | hmem
      · omega
      · have hlater := List.rel_of_pairwise_cons hsorted hmem
        omega

-- The last call that passes bounds what was charged before it.
theorem passed_le (hsession : Counted start calls last) (hexact : ∀ call ∈ calls, call.Exact)
    (hpasses : ∃ call ∈ calls, call.passesMany = true) :
    start.opCount.toNat + countedKeys (calls.filter Call.passesMany) ≤ maxOpsPerScript := by
  induction hsession with
  | nil machine => simp at hpasses
  | @cons start last call rest hshares _ ih =>
      obtain ⟨hcharged, hexactRest⟩ := List.forall_mem_cons.mp hexact
      rw [Call.Exact, hshares] at hcharged
      by_cases hrest : ∃ later ∈ rest, later.passesMany = true
      · have hlater := ih hexactRest hrest
        by_cases hcall : call.passesMany = true
        · rw [List.filter_cons_of_pos hcall, countedKeys_cons]
          omega
        · rw [List.filter_cons_of_neg hcall]
          omega
      · have hcall : call.passesMany = true := by
          simpa [hrest] using hpasses
        have hnone : rest.filter Call.passesMany = [] := by
          simpa using hrest
        have hlimit := call.opCount_le_of_passesMany hcall
        rw [List.filter_cons_of_pos hcall, hnone, countedKeys_cons]
        exact le_of_eq_of_le hcharged.symm hlimit

-- The count only grows, by the keys of every multisig whose number of keys was accepted. Once it is
-- over the limit no multisig passes any more, not even one without keys.
theorem opCount_account (hsession : Counted start calls last)
    (hfits : start.opCount.toNat + countedKeys calls < 2 ^ 64) :
    (start.opCount.toNat :: calls.map fun call => call.after.opCount.toNat).Pairwise (· ≤ ·) ∧
    (∀ call ∈ calls,
      call.after.opCount.toNat = call.before.opCount.toNat + call.keyCount?.getD 0) ∧
    last.opCount.toNat = start.opCount.toNat + countedKeys calls ∧
    (∀ call ∈ calls, call.passesMany = true → call.after.opCount.toNat ≤ maxOpsPerScript) ∧
    ((∃ call ∈ calls, call.passesMany = true) →
      start.opCount.toNat + countedKeys (calls.filter Call.passesMany) ≤ maxOpsPerScript) ∧
    (maxOpsPerScript < start.opCount.toNat → ∀ call ∈ calls, call.passesMany = false) ∧
    calls.Pairwise fun earlier later =>
      maxOpsPerScript < earlier.after.opCount.toNat → later.passesMany = false := by
  have hexact := hsession.exact_of_fits hfits
  have hsorted := hsession.opCount_sorted hexact
  refine ⟨hsorted, hexact, ?_, fun call _ => call.opCount_le_of_passesMany,
    hsession.passed_le hexact, ?_, ?_⟩
  · rw [hsession.opCount_eq, Machine.toNat_count_of_fits hfits]
  · intro hover call hmem
    have hle := List.rel_of_pairwise_cons hsorted (List.mem_map_of_mem hmem)
    exact call.not_passesMany (Nat.lt_of_lt_of_le hover hle)
  · refine (List.pairwise_map.mp hsorted.of_cons).imp ?_
    intro earlier later hle hover
    exact later.not_passesMany (Nat.lt_of_lt_of_le hover hle)

-- A signature under the second of two keys, then two keys more than there is room for. After that
-- not even a multisig without keys passes.
theorem opCount_account_exhausted :
    ∃ calls last, Counted ⟨⟨[], true⟩, 198, []⟩ calls last ∧
      calls.map Call.outcome = [.ok (), .error .opCount, .ok (), .error .opCount] ∧
      last.opCount.toNat = 198 + countedKeys calls ∧ countedKeys calls = 4 ∧
      198 + countedKeys (calls.filter Call.passesMany) ≤ maxOpsPerScript ∧
      countedKeys (calls.filter Call.passesMany) = 2 := by
  have hsession : Counted ⟨⟨[], true⟩, 198, []⟩
      [⟨.constant zeroDigest, Flags.none, .checkMultiSig,
          ⟨⟨Multisig.Operands.pushed ⟨[generatorSignature],
            [[], generatorKey], []⟩ [], true⟩, 198, []⟩⟩,
        ⟨.constant zeroDigest, Flags.none, .checkMultiSigVerify, ⟨⟨[[2]], true⟩, 200, []⟩⟩,
        ⟨.constant zeroDigest, Flags.none, .checkSig, ⟨⟨[[], []], true⟩, 202, []⟩⟩,
        ⟨.constant zeroDigest, Flags.none, .checkMultiSig, ⟨⟨[[], [], []], true⟩, 202, []⟩⟩] _ :=
    .cons rfl (.cons (by decide +kernel) (.cons (by decide +kernel) (.cons (by decide +kernel)
      (.nil _))))
  obtain ⟨-, -, hcount, -, hpassed, -, -⟩ := hsession.opCount_account (by decide +kernel)
  exact ⟨_, _, hsession, by decide +kernel, hcount, by decide +kernel,
    hpassed ⟨_, List.mem_cons_self, by decide +kernel⟩, by decide +kernel⟩

end Session

end SigOps
