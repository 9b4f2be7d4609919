import Mathlib.Data.Nat.Digits.Lemmas
import SigOps.Bytes

namespace SigOps.Bytes

theorem toNatLE_eq_ofDigits (bytes : Bytes) :
    toNatLE bytes = Nat.ofDigits 256 (bytes.map UInt8.toNat) := by
  induction bytes with
  | nil => rfl
  | cons byte rest ih => rw [toNatLE, ih, List.map_cons, Nat.ofDigits_cons]

theorem map_toNat_ofNatLE (value : Nat) :
    (ofNatLE value).map UInt8.toNat = Nat.digits 256 value := by
  induction value using Nat.strong_induction_on with
  | _ value ih =>
      rw [ofNatLE]
      by_cases hzero : value = 0
      · simp [hzero]
      · have hpos : 0 < value := by omega
        rw [if_neg hzero, List.map_cons, ih (value / 256) (by omega),
          Nat.digits_def' (by omega) hpos, UInt8.toNat_ofNat']

@[simp] theorem toNatLE_ofNatLE (value : Nat) : toNatLE (ofNatLE value) = value := by
  rw [toNatLE_eq_ofDigits, map_toNat_ofNatLE, Nat.ofDigits_digits]

@[simp] theorem toNatBE_ofNatBE (value : Nat) : toNatBE (ofNatBE value) = value := by
  rw [toNatBE, ofNatBE, List.reverse_reverse, toNatLE_ofNatLE]

@[simp] theorem ofNatBE_zero : ofNatBE 0 = [] := by
  rw [ofNatBE, ofNatLE, if_pos rfl, List.reverse_nil]

theorem length_ofNatBE_le_iff (value width : Nat) :
    (ofNatBE value).length ≤ width ↔ value < 256 ^ width := by
  rw [← Nat.digits_length_le_iff (by omega : 1 < 256), ← map_toNat_ofNatLE, List.length_map,
    ofNatBE, List.length_reverse]

theorem getLast?_ofNatLE_ne_zero (value : Nat) : (ofNatLE value).getLast? ≠ some 0 := by
  intro hlast
  have hdigit : (Nat.digits 256 value).getLast? = some 0 := by
    rw [← map_toNat_ofNatLE, List.getLast?_map, hlast]
    rfl
  have hvalue : value ≠ 0 := by
    rintro rfl
    cases hdigit
  rw [List.getLast?_eq_some_getLast (Nat.digits_ne_nil_iff_ne_zero.mpr hvalue)] at hdigit
  exact Nat.getLast_digit_ne_zero 256 hvalue (Option.some.inj hdigit)

theorem head?_ofNatBE_ne_zero (value : Nat) : (ofNatBE value).head? ≠ some 0 := by
  rw [ofNatBE, List.head?_reverse]
  exact getLast?_ofNatLE_ne_zero value

theorem ofNatLE_toNatLE {bytes : Bytes} (hlast : bytes.getLast? ≠ some 0) :
    ofNatLE (toNatLE bytes) = bytes := by
  apply List.map_injective_iff.mpr fun _ _ => UInt8.toNat_inj.mp
  rw [map_toNat_ofNatLE, toNatLE_eq_ofDigits]
  apply Nat.digits_ofDigits 256 (by omega)
  · intro digit hdigit
    obtain ⟨byte, -, rfl⟩ := List.mem_map.mp hdigit
    exact byte.toNat_lt
  · intro hne hzero
    rw [List.getLast_map] at hzero
    have hbytes : bytes ≠ [] := List.map_eq_nil_iff.not.mp hne
    have hbyte : bytes.getLast hbytes = 0 := UInt8.toNat_inj.mp hzero
    exact hlast (by rw [List.getLast?_eq_some_getLast hbytes, hbyte])

theorem toNatLE_append (first second : Bytes) :
    toNatLE (first ++ second) = toNatLE first + 256 ^ first.length * toNatLE second := by
  simp only [toNatLE_eq_ofDigits, List.map_append, Nat.ofDigits_append, List.length_map]

@[simp] theorem toNatLE_append_zero (bytes : Bytes) : toNatLE (bytes ++ [0]) = toNatLE bytes := by
  simp [toNatLE_append, toNatLE]

@[simp] theorem toNatBE_zero_cons (bytes : Bytes) : toNatBE (0 :: bytes) = toNatBE bytes := by
  rw [toNatBE, List.reverse_cons, toNatLE_append_zero, toNatBE]

@[simp] theorem toNatBE_replicate_zero_append (count : Nat) (bytes : Bytes) :
    toNatBE (List.replicate count 0 ++ bytes) = toNatBE bytes := by
  induction count with
  | zero => rfl
  | succ count ih => rw [List.replicate_succ, List.cons_append, toNatBE_zero_cons, ih]

theorem ofNatBE_toNatBE {bytes : Bytes} (hhead : bytes.head? ≠ some 0) :
    ofNatBE (toNatBE bytes) = bytes := by
  rw [← List.getLast?_reverse] at hhead
  rw [ofNatBE, toNatBE, ofNatLE_toNatLE hhead, List.reverse_reverse]

-- Leading zeros count for nothing, and there are none in the shortest spelling.
theorem toNatBE_dropWhile_zero (bytes : Bytes) :
    toNatBE (bytes.dropWhile (· == 0)) = toNatBE bytes := by
  induction bytes with
  | nil => rfl
  | cons byte rest ih =>
      by_cases hzero : byte = 0
      · rw [hzero, toNatBE_zero_cons, List.dropWhile_cons_of_pos (by rfl), ih]
      · rw [List.dropWhile_cons_of_neg (by simpa using hzero)]

theorem dropWhile_zero_eq (bytes : Bytes) :
    bytes.dropWhile (· == 0) = ofNatBE (toNatBE bytes) := by
  have hhead : (bytes.dropWhile (· == 0)).head? ≠ some 0 := by
    intro hzero
    have hfirst := List.head?_dropWhile_not (· == 0) bytes
    rw [hzero] at hfirst
    cases hfirst
  rw [← toNatBE_dropWhile_zero bytes, ofNatBE_toNatBE hhead]

theorem toNatLE_lt (bytes : Bytes) : toNatLE bytes < 256 ^ bytes.length := by
  rw [toNatLE_eq_ofDigits, ← List.length_map UInt8.toNat]
  apply Nat.ofDigits_lt_base_pow_length (by omega)
  intro digit hdigit
  obtain ⟨byte, -, rfl⟩ := List.mem_map.mp hdigit
  exact byte.toNat_lt

theorem toNatLE_eq_zero_iff {bytes : Bytes} : toNatLE bytes = 0 ↔ ∀ byte ∈ bytes, byte = 0 := by
  induction bytes with
  | nil => simp [toNatLE]
  | cons byte rest ih =>
      rw [toNatLE, List.forall_mem_cons, ← ih, ← UInt8.toNat_inj, UInt8.toNat_zero]
      omega

theorem toNatBE_lt (bytes : Bytes) : toNatBE bytes < 256 ^ bytes.length := by
  rw [toNatBE, ← List.length_reverse]
  exact toNatLE_lt _

theorem toNatBE_cons (first : UInt8) (rest : Bytes) :
    toNatBE (first :: rest) = toNatBE rest + 256 ^ rest.length * first.toNat := by
  rw [toNatBE, List.reverse_cons, toNatLE_append, List.length_reverse, toNatBE]
  rfl

theorem toNatLE_fixedLE {width value : Nat} (hfits : value < 256 ^ width) :
    toNatLE (fixedLE width value) = value := by
  induction width generalizing value with
  | zero =>
      rw [Nat.pow_zero] at hfits
      rw [fixedLE, toNatLE]
      omega
  | succ width ih =>
      rw [Nat.pow_succ] at hfits
      rw [fixedLE, toNatLE, ih (by omega), UInt8.toNat_ofNat']
      omega

-- A property of bytes can be checked value by value.
theorem forall_byte {holds : UInt8 → Prop} (hvalues : ∀ value : Fin 256, holds (UInt8.ofNat value))
    (byte : UInt8) : holds byte := by
  have hbyte := hvalues ⟨byte.toNat, byte.toNat_lt⟩
  simpa using hbyte

-- The top bit tells the lower half of the bytes from the upper half.
theorem topBit_clear_iff (byte : UInt8) : byte &&& 0x80 = 0 ↔ byte.toNat < 0x80 := by
  revert byte
  apply forall_byte
  decide +kernel

theorem split?_length_append (first rest : Bytes) :
    split? first.length (first ++ rest) = some (first, rest) :=
  split?_eq_some_iff.mpr ⟨rfl, rfl⟩

@[simp] theorem length_fixedLE (width value : Nat) : (fixedLE width value).length = width := by
  induction width generalizing value with
  | zero => rfl
  | succ width ih => rw [fixedLE, List.length_cons, ih]

@[simp] theorem length_fixedBE (width value : Nat) : (fixedBE width value).length = width := by
  rw [fixedBE, List.length_reverse, length_fixedLE]

theorem toNatBE_fixedBE {width value : Nat} (hfits : value < 256 ^ width) :
    toNatBE (fixedBE width value) = value := by
  rw [toNatBE, fixedBE, List.reverse_reverse, toNatLE_fixedLE hfits]

theorem fixedLE_toNatLE (bytes : Bytes) : fixedLE bytes.length (toNatLE bytes) = bytes := by
  induction bytes with
  | nil => rfl
  | cons byte rest ih =>
      have hbyte := byte.toNat_lt
      have hlow : UInt8.ofNat (byte.toNat + 256 * toNatLE rest) = byte := by
        rw [← UInt8.toNat_inj, UInt8.toNat_ofNat']
        omega
      have hhigh : (byte.toNat + 256 * toNatLE rest) / 256 = toNatLE rest := by omega
      rw [List.length_cons, toNatLE, fixedLE, hlow, hhigh, ih]

-- A fixed width leaves one spelling of each number.
theorem fixedBE_toNatBE {bytes : Bytes} {width : Nat} (hlength : bytes.length = width) :
    fixedBE width (toNatBE bytes) = bytes := by
  rw [← List.length_reverse] at hlength
  rw [fixedBE, toNatBE, ← hlength, fixedLE_toNatLE, List.reverse_reverse]

theorem overwrite_append (front back : Bytes) {replaced written : Bytes}
    (hlength : replaced.length = written.length) :
    overwrite (front ++ replaced ++ back) front.length written = front ++ written ++ back := by
  have hsize : (front ++ replaced).length = front.length + written.length := by
    rw [List.length_append, hlength]
  rw [overwrite, List.drop_left' hsize, List.append_assoc front replaced, List.take_left]

end SigOps.Bytes
