import SigOps.Proofs.Machine
import SigOps.Proofs.Rules.Finding
import SigOps.Proofs.ScriptNum

namespace SigOps.Multisig

-- The operands above the rest of the stack, from the top. The layout describes itself: two counts
-- say how many elements are keys and signatures.
def Operands.layout (operands : Operands) (keyCount signatureCount : Bytes) (base : List Bytes) :
    List Bytes :=
  keyCount :: (operands.keys ++ signatureCount :: (operands.signatures ++ operands.dummy :: base))

-- The same with the counts pushed as numbers.
def Operands.pushed (operands : Operands) (base : List Bytes) : List Bytes :=
  operands.layout (ScriptNum.encode operands.keys.length)
    (ScriptNum.encode operands.signatures.length) base

-- Both counts, what they count and the extra element.
def Operands.size (operands : Operands) : Nat :=
  operands.keys.length + operands.signatures.length + 3

-- The number of keys can be read, is in range and leaves the count within the limit of operations.
structure KeyCount (machine : Machine) (keys : Nat) : Prop where
  number : machine.stack.numberAt? 0 = some (.ok (keys : Int))
  le_max : keys ≤ maxKeysPerMultisig
  within : (machine.opCount + UInt64.ofNat keys).toNat ≤ maxOpsPerScript

-- The number of signatures can be read below the keys and is not above theirs.
structure SignatureCount (machine : Machine) (keys signatures : Nat) : Prop where
  number : machine.stack.numberAt? (keys + 1) = some (.ok (signatures : Int))
  le_keys : signatures ≤ keys

structure Laid (machine : Machine) (operands : Operands) (base : List Bytes) : Prop where
  items_eq : ∃ keyCount signatureCount,
    machine.stack.items = operands.layout keyCount signatureCount base
  keyCount : KeyCount machine operands.keys.length
  signatureCount : SignatureCount machine operands.keys.length operands.signatures.length

-- Why the top of the stack is no count up to a limit.
inductive CountRefusal (stack : Stack) (limit : Nat) (outOfRange : Int → ScriptError) :
    ScriptError → Prop where
  | missing (hempty : stack.height < 1) : CountRefusal stack limit outOfRange (.stack .underflow)
  | unreadable {cause : NumError} (hnumber : stack.numberAt? 0 = some (.error cause)) :
      CountRefusal stack limit outOfRange (.stack (.number cause))
  | outOfRange {value : Int} (hnumber : stack.numberAt? 0 = some (.ok value))
      (hrange : ¬(0 ≤ value ∧ value ≤ limit)) :
      CountRefusal stack limit outOfRange (outOfRange value)

-- Why a stack does not have the layout, with the elements that are taken all the same, or that
-- would have to be there, and the operations that are counted.
inductive Refusal (machine : Machine) : (taken charged : Nat) → ScriptError → Prop where
  | keyCount {fault : ScriptError}
      (hrefusal : CountRefusal machine.stack maxKeysPerMultisig .keyCount fault) :
      Refusal machine 1 0 fault
  | opCount {keys : Nat} (hnumber : machine.stack.numberAt? 0 = some (.ok (keys : Int)))
      (hle : keys ≤ maxKeysPerMultisig)
      (hlimit : maxOpsPerScript < (machine.opCount + UInt64.ofNat keys).toNat) :
      Refusal machine 1 keys .opCount
  | fewKeys {keys : Nat} (hkeys : KeyCount machine keys)
      (hfew : machine.stack.height < keys + 1) :
      Refusal machine (keys + 1) keys (.stack .underflow)
  | signatureCount {keys : Nat} {fault : ScriptError} (hkeys : KeyCount machine keys)
      (henough : keys + 1 ≤ machine.stack.height)
      (hrefusal :
        CountRefusal (machine.stack.drop (keys + 1)) keys (.signatureCount · keys) fault) :
      Refusal machine (keys + 2) keys fault
  | fewSignatures {keys signatures : Nat} (hkeys : KeyCount machine keys)
      (hsignatures : SignatureCount machine keys signatures)
      (hfew : machine.stack.height < keys + signatures + 3) :
      Refusal machine (keys + signatures + 3) keys (.stack .underflow)

section Evaluation

variable {machine : Machine}

theorem popCount_cases (machine : Machine) (limit : Nat) (outOfRange : Int → ScriptError) :
    (∃ fault, CountRefusal machine.stack limit outOfRange fault ∧
      popCount limit outOfRange machine = .error fault (machine.advance 1 0)) ∨
    ∃ count : Nat, machine.stack.numberAt? 0 = some (.ok (count : Int)) ∧ count ≤ limit ∧
      popCount limit outOfRange machine = .ok count (machine.advance 1 0) := by
  cases hnumber : machine.stack.numberAt? 0 with
  | none =>
      have hempty : machine.stack.height < 1 := by
        simpa [Stack.numberAt?, Stack.height] using hnumber
      exact .inl ⟨_, .missing hempty,
        bind_of_error (Machine.onStack_of_error (Stack.popNum_of_empty hempty))⟩
  | some number =>
      have hpop := Stack.popNum_eq hnumber
      cases number with
      | error cause =>
          exact .inl ⟨_, .unreadable hnumber, bind_of_error (Machine.onStack_of_error hpop)⟩
      | ok value =>
          have hcheck : popCount limit outOfRange machine =
              (ofExcept (checkCount value limit (outOfRange value)) : Eval Nat)
                (machine.advance 1 0) := bind_of_ok (Machine.onStack_of_ok hpop)
          by_cases hrange : 0 ≤ value ∧ value ≤ limit
          · obtain ⟨count, rfl⟩ := Int.eq_ofNat_of_zero_le hrange.1
            rw [checkCount, if_pos hrange] at hcheck
            exact .inr ⟨count, rfl, Int.ofNat_le.mp hrange.2, hcheck⟩
          · rw [checkCount, if_neg hrange] at hcheck
            exact .inl ⟨_, .outOfRange hnumber hrange, hcheck⟩

theorem popKeys_cases (machine : Machine) :
    (∃ taken charged fault, Refusal machine taken charged fault ∧
      popKeys machine = .error fault (machine.advance taken charged)) ∨
    ∃ keys, KeyCount machine keys ∧ keys + 1 ≤ machine.stack.height ∧
      popKeys machine =
        .ok ((machine.stack.drop 1).items.take keys) (machine.advance (keys + 1) keys) := by
  rcases popCount_cases machine maxKeysPerMultisig .keyCount with
    ⟨fault, hrefusal, hpop⟩ | ⟨keys, hnumber, hle, hpop⟩
  · exact .inl ⟨1, 0, fault, .keyCount hrefusal, bind_of_error hpop⟩
  · have hadd : Machine.addOps keys (machine.advance 1 0) = .ok () (machine.advance 1 keys) := by
      rw [Machine.addOps_eq, Machine.advance_advance, Nat.add_zero, Nat.zero_add]
    have hget : (get : Eval Machine) (machine.advance 1 keys) =
        .ok (machine.advance 1 keys) (machine.advance 1 keys) := rfl
    rw [popKeys, bind_of_ok hpop, bind_of_ok hadd, bind_of_ok hget, Machine.advance_opCount]
    by_cases hlimit : maxOpsPerScript < (machine.opCount + UInt64.ofNat keys).toNat
    · rw [if_pos hlimit]
      exact .inl ⟨1, keys, .opCount, .opCount hnumber hle hlimit, rfl⟩
    · have hkeys : KeyCount machine keys := ⟨hnumber, hle, Nat.not_lt.mp hlimit⟩
      have hadvance :
          (machine.advance 1 keys).advance keys 0 = machine.advance (keys + 1) keys := by
        rw [Machine.advance_advance, Nat.add_zero, Nat.add_comm]
      have hpos := Stack.lt_height_of_numberAt? hnumber
      have hmany := Machine.popMany_cases keys (machine.advance 1 keys)
      rw [hadvance, Machine.advance_stack, Stack.height_drop] at hmany
      rw [if_neg hlimit]
      rcases hmany with ⟨hfew, hmany⟩ | ⟨henough, hmany⟩
      · exact .inl ⟨keys + 1, keys, _, .fewKeys hkeys (by omega), hmany⟩
      · exact .inr ⟨keys, hkeys, by omega, hmany⟩

theorem popSignatures_cases {keys : Nat} (hkeys : KeyCount machine keys)
    (hpopped : keys + 1 ≤ machine.stack.height) :
    (∃ taken fault, Refusal machine taken keys fault ∧
      popSignatures keys (machine.advance (keys + 1) keys) =
        .error fault (machine.advance taken keys)) ∨
    ∃ signatures, SignatureCount machine keys signatures ∧
      keys + signatures + 2 ≤ machine.stack.height ∧
      popSignatures keys (machine.advance (keys + 1) keys) =
        .ok ((machine.stack.drop (keys + 2)).items.take signatures)
          (machine.advance (keys + signatures + 2) keys) := by
  rcases popCount_cases (machine.advance (keys + 1) keys) keys (.signatureCount · keys) with
    ⟨fault, hrefusal, hpop⟩ | ⟨signatures, hnumber, hle, hpop⟩
  · rw [Machine.advance_advance] at hpop
    exact .inl ⟨keys + 2, fault, .signatureCount hkeys hpopped hrefusal, bind_of_error hpop⟩
  · rw [Machine.advance_stack, Stack.numberAt?_drop, Nat.add_zero] at hnumber
    rw [Machine.advance_advance, Nat.add_zero] at hpop
    have hadvance : (machine.advance (keys + 2) keys).advance signatures 0 =
        machine.advance (keys + signatures + 2) keys := by
      rw [Machine.advance_advance, Nat.add_right_comm]
      rfl
    have hpos := Stack.lt_height_of_numberAt? hnumber
    have hsignatures : SignatureCount machine keys signatures := ⟨hnumber, hle⟩
    have hmany := Machine.popMany_cases signatures (machine.advance (keys + 2) keys)
    rw [hadvance, Machine.advance_stack, Stack.height_drop] at hmany
    rw [popSignatures, bind_of_ok hpop]
    rcases hmany with ⟨hfew, hmany⟩ | ⟨henough, hmany⟩
    · have hheight : machine.stack.height ≤ keys + signatures + 2 := by omega
      rw [Machine.advance_of_height_le hheight (Nat.le_succ_of_le hheight)] at hmany
      exact .inl ⟨_, _, .fewSignatures hkeys hsignatures (by omega), hmany⟩
    · exact .inr ⟨signatures, hsignatures, by omega, hmany⟩

theorem laid_of_counts {keys signatures : Nat} (hkeys : KeyCount machine keys)
    (hsignatures : SignatureCount machine keys signatures)
    (henough : keys + signatures + 3 ≤ machine.stack.height) {operands : Operands}
    (hoperandKeys : operands.keys = (machine.stack.drop 1).items.take keys)
    (hoperandSignatures :
      operands.signatures = (machine.stack.drop (keys + 2)).items.take signatures)
    (hdummy : (machine.stack.drop (keys + signatures + 2)).items =
      operands.dummy :: (machine.stack.drop (keys + signatures + 3)).items) :
    operands.keys.length = keys ∧ operands.size = keys + signatures + 3 ∧
      Laid machine operands (machine.stack.drop (keys + signatures + 3)).items := by
  have hkeysLength : operands.keys.length = keys := by
    rw [hoperandKeys, Stack.length_take_items_drop (by omega)]
  have hsignaturesLength : operands.signatures.length = signatures := by
    rw [hoperandSignatures, Stack.length_take_items_drop (by omega)]
  obtain ⟨keyCount, hkeyCount⟩ :=
    Stack.exists_item_drop (show 0 < machine.stack.height by omega)
  obtain ⟨signatureCount, hsignatureCount⟩ :=
    Stack.exists_item_drop (show keys + 1 < machine.stack.height by omega)
  have hkeyItems := Stack.take_append_items_drop 1 keys machine.stack
  have hsignatureItems := Stack.take_append_items_drop (keys + 2) signatures machine.stack
  rw [Nat.add_comm 1] at hkeyItems
  rw [Nat.add_right_comm] at hsignatureItems
  refine ⟨hkeysLength, by rw [Operands.size, hkeysLength, hsignaturesLength],
    ⟨keyCount, signatureCount, ?_⟩, ?_, ?_⟩
  · calc machine.stack.items
        = keyCount :: (machine.stack.drop 1).items := hkeyCount
      _ = keyCount :: (operands.keys ++
            signatureCount :: (machine.stack.drop (keys + 2)).items) := by
          rw [← hsignatureCount, hoperandKeys, hkeyItems]
      _ = _ := by rw [Operands.layout, ← hdummy, hoperandSignatures, hsignatureItems]
  · rwa [hkeysLength]
  · rwa [hkeysLength, hsignaturesLength]

-- The evaluation ends at the first operand that does not fit the layout, or it takes all of them.
theorem popOperands_cases (machine : Machine) :
    (∃ taken charged fault, Refusal machine taken charged fault ∧
      popOperands machine = .error fault (machine.advance taken charged)) ∨
    ∃ operands, Laid machine operands (machine.stack.drop operands.size).items ∧
      popOperands machine =
        .ok operands (machine.advance operands.size operands.keys.length) := by
  rcases popKeys_cases machine with
    ⟨taken, charged, fault, hrefusal, hpop⟩ | ⟨keys, hkeys, hpopped, hpop⟩
  · exact .inl ⟨taken, charged, fault, hrefusal, bind_of_error hpop⟩
  · rw [popOperands, bind_of_ok hpop, Stack.length_take_items_drop (by omega)]
    rcases popSignatures_cases hkeys hpopped with
      ⟨taken, fault, hrefusal, hpop⟩ | ⟨signatures, hsignatures, hpopped, hpop⟩
    · exact .inl ⟨taken, keys, fault, hrefusal, bind_of_error hpop⟩
    · have hheight := Stack.height_drop (keys + signatures + 2) machine.stack
      have hdummy := Machine.pop_cases (machine.advance (keys + signatures + 2) keys)
      rw [Machine.advance_advance, Machine.advance_stack, Stack.drop_drop] at hdummy
      rw [bind_of_ok hpop]
      rcases hdummy with ⟨hempty, hpop⟩ | ⟨dummy, hdummy, hpop⟩
      · exact .inl ⟨_, keys, _, .fewSignatures hkeys hsignatures (by omega), bind_of_error hpop⟩
      · have hnonempty := congrArg List.length hdummy
        rw [List.length_cons] at hnonempty
        have henough : keys + signatures + 3 ≤ machine.stack.height := by
          simp only [Stack.height] at hheight ⊢
          omega
        obtain ⟨operands, hoperands⟩ : ∃ operands : Operands, operands =
          ⟨(machine.stack.drop (keys + 2)).items.take signatures,
            (machine.stack.drop 1).items.take keys, dummy⟩ := ⟨_, rfl⟩
        obtain ⟨hkeysLength, hsize, hlaid⟩ := laid_of_counts hkeys hsignatures henough
          (congrArg Operands.keys hoperands) (congrArg Operands.signatures hoperands)
          (by rw [hdummy, hoperands])
        refine .inr ⟨operands, by rwa [hsize], ?_⟩
        rw [bind_of_ok hpop, hsize, hkeysLength, hoperands]
        rfl

end Evaluation

section Shape

variable {machine : Machine} {operands : Operands} {base : List Bytes}

theorem KeyCount.unique {keys keys' : Nat} (hkeys : KeyCount machine keys)
    (hkeys' : KeyCount machine keys') : keys = keys' := by
  have hsame := hkeys.number.symm.trans hkeys'.number
  simpa using hsame

theorem SignatureCount.unique {keys signatures signatures' : Nat}
    (hsignatures : SignatureCount machine keys signatures)
    (hsignatures' : SignatureCount machine keys signatures') : signatures = signatures' := by
  have hsame := hsignatures.number.symm.trans hsignatures'.number
  simpa using hsame

theorem CountRefusal.limit_lt {stack : Stack} {limit : Nat} {outOfRange : Int → ScriptError}
    {fault : ScriptError} (hrefusal : CountRefusal stack limit outOfRange fault) {count : Nat}
    (hcount : stack.numberAt? 0 = some (.ok (count : Int))) : limit < count := by
  cases hrefusal with
  | missing hempty =>
      have hpos := Stack.lt_height_of_numberAt? hcount
      omega
  | unreadable hnumber => simp [hcount] at hnumber
  | @outOfRange value hnumber hrange =>
      obtain rfl : (count : Int) = value := by simpa [hcount] using hnumber
      omega

@[simp] theorem Operands.layout_zero (operands : Operands) (keyCount signatureCount : Bytes)
    (base : List Bytes) :
    (operands.layout keyCount signatureCount base)[0]? = some keyCount := rfl

@[simp] theorem Operands.layout_keys (operands : Operands) (keyCount signatureCount : Bytes)
    (base : List Bytes) :
    (operands.layout keyCount signatureCount base)[operands.keys.length + 1]? =
      some signatureCount := by
  simp [layout]

@[simp] theorem Operands.length_layout (operands : Operands) (keyCount signatureCount : Bytes)
    (base : List Bytes) :
    (operands.layout keyCount signatureCount base).length = operands.size + base.length := by
  simp only [layout, size, List.length_cons, List.length_append]
  omega

theorem Operands.drop_layout (operands : Operands) (keyCount signatureCount : Bytes)
    (base : List Bytes) :
    (operands.layout keyCount signatureCount base).drop operands.size = base := by
  have hsplit : operands.layout keyCount signatureCount base =
      (keyCount :: operands.keys ++ signatureCount :: operands.signatures ++ [operands.dummy]) ++
        base := by
    simp [layout]
  have hlength : operands.size = (keyCount :: operands.keys ++
      signatureCount :: operands.signatures ++ [operands.dummy]).length := by
    simp only [size, List.length_cons, List.length_append, List.length_nil]
    omega
  rw [hsplit, hlength, List.drop_left]

theorem Laid.size_le (hlaid : Laid machine operands base) :
    operands.size ≤ machine.stack.height := by
  obtain ⟨keyCount, signatureCount, hitems⟩ := hlaid.items_eq
  rw [Stack.height, hitems, Operands.length_layout]
  exact Nat.le_add_right _ _

theorem Laid.base_eq (hlaid : Laid machine operands base) :
    (machine.stack.drop operands.size).items = base := by
  obtain ⟨keyCount, signatureCount, hitems⟩ := hlaid.items_eq
  rw [Stack.drop_items, hitems, Operands.drop_layout]

-- The counts fix how the stack is divided.
theorem Laid.unique {operands' : Operands} {base' : List Bytes}
    (hlaid : Laid machine operands base) (hlaid' : Laid machine operands' base') :
    operands = operands' := by
  have hkeys := hlaid.keyCount.unique hlaid'.keyCount
  have hsignatures := hlaid.signatureCount
  rw [hkeys] at hsignatures
  have hsignatures := hsignatures.unique hlaid'.signatureCount
  obtain ⟨keyCount, signatureCount, hitems⟩ := hlaid.items_eq
  obtain ⟨keyCount', signatureCount', hitems'⟩ := hlaid'.items_eq
  have hsame := hitems.symm.trans hitems'
  obtain ⟨-, hrest⟩ := List.cons.inj hsame
  obtain ⟨hkeyItems, hrest⟩ := List.append_inj hrest hkeys
  obtain ⟨-, hrest⟩ := List.cons.inj hrest
  obtain ⟨hsignatureItems, hrest⟩ := List.append_inj hrest hsignatures
  obtain ⟨hdummy, -⟩ := List.cons.inj hrest
  cases operands
  cases operands'
  simp only [Operands.mk.injEq]
  exact ⟨hsignatureItems, hkeyItems, hdummy⟩

theorem Refusal.not_laid {taken charged : Nat} {fault : ScriptError}
    (hrefusal : Refusal machine taken charged fault) : ¬Laid machine operands base := by
  intro hlaid
  have hkeys := hlaid.keyCount
  have hsignatures := hlaid.signatureCount
  have hsize := hlaid.size_le
  simp only [Operands.size] at hsize
  cases hrefusal with
  | keyCount hrefusal =>
      have hlimit := hrefusal.limit_lt hkeys.number
      have hle := hkeys.le_max
      omega
  | opCount hnumber _ hlimit =>
      have hsame : operands.keys.length = charged := by simpa [hkeys.number] using hnumber
      have hwithin := hkeys.within
      rw [hsame] at hwithin
      omega
  | fewKeys hkeys' hfew =>
      have hsame := hkeys.unique hkeys'
      omega
  | signatureCount hkeys' _ hrefusal =>
      obtain rfl := hkeys.unique hkeys'
      have hnumber := hsignatures.number
      have hlimit := hrefusal.limit_lt (by rw [Stack.numberAt?_drop, Nat.add_zero, hnumber])
      have hle := hsignatures.le_keys
      omega
  | fewSignatures hkeys' hsignatures' hfew =>
      obtain rfl := hkeys.unique hkeys'
      have hsame := hsignatures.unique hsignatures'
      omega

theorem popOperands_of_laid (hlaid : Laid machine operands base) :
    popOperands machine = .ok operands (machine.advance operands.size operands.keys.length) := by
  rcases popOperands_cases machine with ⟨_, _, _, hrefusal, -⟩ | ⟨operands', hlaid', hpop⟩
  · exact absurd hlaid hrefusal.not_laid
  · rw [hlaid.unique hlaid']
    exact hpop

-- Counts that are pushed as numbers can be read whatever spelling the stack asks for.
theorem laid_pushed {minimal : Bool} {opCount : UInt64} {log : DigestLog}
    (hsignatures : operands.signatures.length ≤ operands.keys.length)
    (hkeys : operands.keys.length ≤ maxKeysPerMultisig)
    (hops : opCount.toNat + operands.keys.length ≤ maxOpsPerScript) :
    Laid ⟨⟨operands.pushed base, minimal⟩, opCount, log⟩ operands base := by
  have hsmall (count : Nat) (hcount : count ≤ maxKeysPerMultisig) :
      (count : Int).natAbs < 2 ^ 31 := by
    simp only [maxKeysPerMultisig] at hcount
    omega
  have hwithin : (opCount + UInt64.ofNat operands.keys.length).toNat ≤ maxOpsPerScript := by
    rwa [Machine.toNat_count_of_fits (hops.trans_lt (by decide))]
  refine ⟨⟨_, _, rfl⟩, ⟨?_, hkeys, hwithin⟩, ⟨?_, hsignatures⟩⟩
  · rw [Stack.numberAt?, Operands.pushed, Operands.layout_zero, Option.map_some,
      ScriptNum.decode_encode (hsmall _ hkeys)]
  · rw [Stack.numberAt?, Operands.pushed, Operands.layout_keys, Option.map_some,
      ScriptNum.decode_encode (hsmall _ (hsignatures.trans hkeys))]

theorem Laid.items_eq_pushed (hlaid : Laid machine operands base)
    (hminimal : machine.stack.requireMinimal = true) :
    machine.stack.items = operands.pushed base := by
  obtain ⟨keyCount, signatureCount, hitems⟩ := hlaid.items_eq
  have hkeys := hlaid.keyCount.number
  have hsignatures := hlaid.signatureCount.number
  rw [Stack.numberAt?, hminimal, hitems, Operands.layout_zero] at hkeys
  rw [Stack.numberAt?, hminimal, hitems, Operands.layout_keys] at hsignatures
  rw [hitems, Operands.pushed, ScriptNum.eq_encode_of_decode (Option.some.inj hkeys),
    ScriptNum.eq_encode_of_decode (Option.some.inj hsignatures)]

end Shape

end SigOps.Multisig
