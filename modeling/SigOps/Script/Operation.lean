import SigOps.Bytes

namespace SigOps.Script

-- The bytes of a push after its first: `digits` for the size of the data, then the data.
def pushSize? (digits : Nat) (rest : Bytes) : Option Nat :=
  (rest.split? digits).map fun (size, _) => digits + size.toNatLE

-- The bytes of an operation after its first.
def operandSize? (opcode : UInt8) (rest : Bytes) : Option Nat :=
  if opcode = 0x4c then pushSize? 1 rest
  else if opcode = 0x4d then pushSize? 2 rest
  else if opcode = 0x4e then pushSize? 4 rest
  else if opcode ≤ 0x4b then some opcode.toNat
  else some 0

-- The size of the first operation. There is none at the end of a script or if it is cut short.
def opSize? (script : Bytes) : Option Nat :=
  match script with
  | [] => none
  | opcode :: rest =>
      match operandSize? opcode rest with
      | none => none
      | some size => if rest.length < size then none else some (size + 1)

theorem opSize?_pos {script : Bytes} {size : Nat} (hsize : opSize? script = some size) :
    0 < size ∧ 0 < script.length := by
  cases script with
  | nil => simp [opSize?] at hsize
  | cons opcode rest =>
      simp only [opSize?] at hsize
      split at hsize
      · simp at hsize
      · split at hsize
        · simp at hsize
        · simp only [Option.some.injEq] at hsize
          simp only [List.length_cons]
          omega

-- The opcode of a push and the size of its data. Sizes of 2³² and more have no push.
def pushHeader? (size : Nat) : Option Bytes :=
  if size ≤ 0x4b then some [UInt8.ofNat size]
  else if size < 0x100 then some (0x4c :: Bytes.fixedLE 1 size)
  else if size < 0x10000 then some (0x4d :: Bytes.fixedLE 2 size)
  else if size < 0x100000000 then some (0x4e :: Bytes.fixedLE 4 size)
  else none

def push? (data : Bytes) : Option Bytes := (pushHeader? data.length).map (· ++ data)

end SigOps.Script
