import SigOps.Proofs.Bytes
import SigOps.Script.Operation

namespace SigOps.Script

-- The bytes are one complete operation.
def IsOperation (bytes : Bytes) : Prop := opSize? bytes = some bytes.length

instance (bytes : Bytes) : Decidable (IsOperation bytes) :=
  inferInstanceAs (Decidable (opSize? bytes = some bytes.length))

theorem pushSize?_eq_some_iff {digits size : Nat} {bytes : Bytes} :
    pushSize? digits bytes = some size ↔
      ∃ count data, bytes = count ++ data ∧ count.length = digits ∧
        digits + count.toNatLE = size := by
  simp only [pushSize?, Option.map_eq_some_iff, Prod.exists, Bytes.split?_eq_some_iff, and_assoc]

-- The digits of a size are among the bytes that it counts, so what follows these has no part in it.
theorem pushSize?_append (digits : Nat) (body rest : Bytes) :
    pushSize? digits (body ++ rest) = some body.length ↔
      pushSize? digits body = some body.length := by
  simp only [pushSize?_eq_some_iff]
  constructor
  · rintro ⟨count, data, hsplit, hcount, hsize⟩
    -- the size of the body is at least that of the digits, so they lie in the body
    obtain ⟨data, rfl⟩ : count <+: body :=
      List.prefix_of_prefix_length_le ⟨data, hsplit.symm⟩ (List.prefix_append body rest) (by omega)
    exact ⟨count, data, rfl, hcount, hsize⟩
  · rintro ⟨count, data, hsplit, hcount, hsize⟩
    exact ⟨count, data ++ rest, by rw [hsplit, List.append_assoc], hcount, hsize⟩

theorem operandSize?_append (opcode : UInt8) (body rest : Bytes) :
    operandSize? opcode (body ++ rest) = some body.length ↔
      operandSize? opcode body = some body.length := by
  simp only [operandSize?]
  split
  · exact pushSize?_append 1 body rest
  · split
    · exact pushSize?_append 2 body rest
    · split
      · exact pushSize?_append 4 body rest
      · rfl

theorem opSize?_cons_eq_some_iff (opcode : UInt8) (rest : Bytes) (size : Nat) :
    opSize? (opcode :: rest) = some (size + 1) ↔
      operandSize? opcode rest = some size ∧ size ≤ rest.length := by
  simp only [opSize?]
  cases operandSize? opcode rest with
  | none => simp
  | some found =>
      simp only [Option.ite_none_left_eq_some, Option.some.injEq]
      omega

theorem isOperation_cons_iff {opcode : UInt8} {rest : Bytes} :
    IsOperation (opcode :: rest) ↔ operandSize? opcode rest = some rest.length := by
  rw [IsOperation, List.length_cons, opSize?_cons_eq_some_iff, and_iff_left le_rfl]

-- Whether the first bytes of a script are its first operation is decided by these bytes.
theorem opSize?_append (operation rest : Bytes) :
    opSize? (operation ++ rest) = some operation.length ↔ IsOperation operation := by
  cases operation with
  | nil =>
      constructor
      · intro hsize
        have hpos := (opSize?_pos hsize).1
        cases hpos
      · intro hsize
        cases hsize
  | cons opcode body =>
      have hle : body.length ≤ (body ++ rest).length := by simp
      rw [List.cons_append, List.length_cons, opSize?_cons_eq_some_iff, operandSize?_append,
        and_iff_left hle, isOperation_cons_iff]

theorem opSize?_le {script : Bytes} {size : Nat} (hsize : opSize? script = some size) :
    size ≤ script.length := by
  cases script with
  | nil => cases hsize
  | cons opcode rest =>
      cases size with
      | zero => exact Nat.zero_le _
      | succ size =>
          have hle := ((opSize?_cons_eq_some_iff opcode rest size).mp hsize).2
          rw [List.length_cons]
          omega

theorem isOperation_take {script : Bytes} {size : Nat} (hsize : opSize? script = some size) :
    IsOperation (script.take size) := by
  have hlength := List.length_take_of_le (opSize?_le hsize)
  rw [← opSize?_append (script.take size) (script.drop size), List.take_append_drop, hlength, hsize]

-- The complete operations in order, and the bytes after the last of them.
structure Parts where
  operations : List Bytes
  tail : Bytes
  complete : ∀ operation ∈ operations, IsOperation operation
  ended : opSize? tail = none

namespace Parts

def toBytes (parts : Parts) : Bytes := parts.operations.flatten ++ parts.tail

def ofTail (tail : Bytes) (hended : opSize? tail = none) : Parts := ⟨[], tail, by simp, hended⟩

def cons (operation : Bytes) (hoperation : IsOperation operation) (later : Parts) : Parts :=
  { later with
    operations := operation :: later.operations
    complete := List.forall_mem_cons.mpr ⟨hoperation, later.complete⟩ }

-- The operations that are wanted, with the tail as it is.
def keep (wanted : Bytes → Bool) (parts : Parts) : Parts :=
  { parts with
    operations := parts.operations.filter wanted
    complete := fun operation hmem => parts.complete operation (List.mem_filter.mp hmem).1 }

@[elab_as_elim]
theorem induction {motive : Parts → Prop} (ofTail : ∀ tail hended, motive (ofTail tail hended))
    (cons : ∀ operation hoperation later, motive later → motive (cons operation hoperation later))
    (parts : Parts) : motive parts := by
  obtain ⟨operations, tail, hcomplete, hended⟩ := parts
  induction operations with
  | nil => exact ofTail tail hended
  | cons operation later ih =>
      obtain ⟨hoperation, hlater⟩ := List.forall_mem_cons.mp hcomplete
      exact cons operation hoperation ⟨later, tail, hlater, hended⟩ (ih hlater)

variable {tail operation : Bytes} {later : Parts}

@[simp] theorem toBytes_ofTail (hended : opSize? tail = none) :
    (ofTail tail hended).toBytes = tail :=
  rfl

@[simp] theorem toBytes_cons (hoperation : IsOperation operation) :
    (cons operation hoperation later).toBytes = operation ++ later.toBytes := by
  simp only [toBytes, cons, List.flatten_cons, List.append_assoc]

@[simp] theorem keep_ofTail (wanted : Bytes → Bool) (hended : opSize? tail = none) :
    keep wanted (ofTail tail hended) = ofTail tail hended :=
  rfl

theorem keep_cons_of_pos {wanted : Bytes → Bool} (hoperation : IsOperation operation)
    (hwanted : wanted operation = true) :
    keep wanted (cons operation hoperation later) =
      cons operation hoperation (keep wanted later) := by
  simp only [keep, cons, List.filter_cons_of_pos hwanted]

theorem keep_cons_of_neg {wanted : Bytes → Bool} (hoperation : IsOperation operation)
    (hunwanted : wanted operation ≠ true) :
    keep wanted (cons operation hoperation later) = keep wanted later := by
  simp only [keep, cons, List.filter_cons_of_neg hunwanted]

theorem keep_keep (first second : Bytes → Bool) (parts : Parts) :
    keep second (keep first parts) =
      keep (fun operation => first operation && second operation) parts := by
  simp only [keep, List.filter_filter, Bool.and_comm]

theorem keep_all (parts : Parts) : keep (fun _ => true) parts = parts := by
  simp only [keep, List.filter_eq_self.mpr fun _ _ => rfl]

end Parts

def parts (script : Bytes) : Parts :=
  match hsize : opSize? script with
  | none => .ofTail script hsize
  | some size => .cons (script.take size) (isOperation_take hsize) (parts (script.drop size))
termination_by script.length
decreasing_by
  have hpos := opSize?_pos hsize
  simp only [List.length_drop]
  omega

@[simp] theorem toBytes_parts (script : Bytes) : (parts script).toBytes = script := by
  fun_induction parts script with
  | case1 script hsize => rfl
  | case2 script size hsize ih => rw [Parts.toBytes_cons, ih, List.take_append_drop]

-- Operations that are put together are found again.
@[simp] theorem parts_toBytes (given : Parts) : parts given.toBytes = given := by
  induction given using Parts.induction with
  | ofTail tail hended =>
      rw [Parts.toBytes_ofTail, parts]
      split
      · rfl
      · rename_i size hsome
        rw [hended] at hsome
        cases hsome
  | cons operation hoperation later ih =>
      have hsize := (opSize?_append operation later.toBytes).mpr hoperation
      rw [Parts.toBytes_cons, parts]
      split
      · rename_i hnone
        rw [hsize] at hnone
        cases hnone
      · rename_i size hsome
        obtain rfl : operation.length = size := Option.some.inj (hsize.symm.trans hsome)
        simp only [List.drop_left, List.take_left, ih]

section Push

variable {data pattern : Bytes}

theorem operandSize?_direct {size : Nat} (hsize : size ≤ 0x4b) (rest : Bytes) :
    operandSize? (UInt8.ofNat size) rest = some size := by
  have hbyte : (UInt8.ofNat size).toNat = size := by
    rw [UInt8.toNat_ofNat']
    omega
  have hne (opcode : UInt8) (hlong : 0x4b < opcode.toNat) : UInt8.ofNat size ≠ opcode := by
    rintro rfl
    omega
  rw [operandSize?, if_neg (hne 0x4c (by decide)), if_neg (hne 0x4d (by decide)),
    if_neg (hne 0x4e (by decide)), if_pos (UInt8.le_iff_toNat_le.mpr (hbyte.symm ▸ hsize)), hbyte]

theorem pushSize?_fixedLE {digits : Nat} (hfits : data.length < 256 ^ digits) :
    pushSize? digits (Bytes.fixedLE digits data.length ++ data) =
      some (Bytes.fixedLE digits data.length ++ data).length := by
  rw [pushSize?_eq_some_iff]
  refine ⟨_, data, rfl, Bytes.length_fixedLE _ _, ?_⟩
  rw [Bytes.toNatLE_fixedLE hfits, List.length_append, Bytes.length_fixedLE]

theorem isOperation_counted (opcode : UInt8) (digits : Nat)
    (hcounted : ∀ rest, operandSize? opcode rest = pushSize? digits rest)
    (hfits : data.length < 256 ^ digits) :
    IsOperation (opcode :: (Bytes.fixedLE digits data.length ++ data)) :=
  isOperation_cons_iff.mpr ((hcounted _).trans (pushSize?_fixedLE hfits))

theorem isOperation_push (hpush : push? data = some pattern) : IsOperation pattern := by
  obtain ⟨header, hheader, rfl⟩ := Option.map_eq_some_iff.mp hpush
  unfold pushHeader? at hheader
  split_ifs at hheader with hdirect hone htwo hfour <;> obtain rfl := Option.some.inj hheader
  · exact isOperation_cons_iff.mpr (operandSize?_direct hdirect data)
  · exact isOperation_counted 0x4c 1 (fun _ => rfl) hone
  · exact isOperation_counted 0x4d 2 (fun _ => rfl) htwo
  · exact isOperation_counted 0x4e 4 (fun _ => rfl) hfour

theorem exists_push (hsize : data.length < 0x100000000) : ∃ pattern, push? data = some pattern := by
  unfold push? pushHeader?
  split_ifs
  iterate 4 exact ⟨_, rfl⟩

end Push

end SigOps.Script
