import SigOps.Bytes

namespace SigOps

inductive NumError where
  | overflow
  | notMinimal
deriving DecidableEq

namespace NumError

def message : NumError → String
  | .overflow => "Script number overflow"
  | .notMinimal => "Non-minimally encoded script number"

end NumError

-- Numbers are spelled least significant byte first in sign and magnitude. The sign is the top bit
-- of the last byte.
namespace ScriptNum

-- Operands have at most this many bytes, results may be longer.
def maxSize : Nat := 4

-- The last byte holds more than a sign, unless the byte before needs its own top bit.
def isMinimal (bytes : Bytes) : Bool :=
  match bytes.reverse with
  | [] => true
  | [last] => last &&& 0x7f != 0
  | last :: previous :: _ => last &&& 0x7f != 0 || previous &&& 0x80 != 0

-- Sets the bytes into a word, the first of them `shift` bits up.
def join (word : BitVec 64) (shift : Nat) : Bytes → BitVec 64
  | [] => word
  | byte :: rest => join (word ||| byte.toBitVec.setWidth 64 <<< shift) (shift + 8) rest

def decode (requireMinimal : Bool) (bytes : Bytes) : Except NumError Int :=
  if maxSize < bytes.length then .error .overflow
  else
    match bytes.getLast? with
    | none => .ok 0
    | some last =>
        if requireMinimal && !isMinimal bytes then .error .notMinimal
        else
          let joined := join 0 0 bytes
          if last &&& 0x80 = 0 then .ok joined.toInt
          else
            let sign := 0x80#64 <<< (8 * (bytes.length - 1))
            .ok (-(joined &&& ~~~sign)).toInt

-- The shortest spelling. The sign takes a byte of its own when the magnitude fills the last one.
def encode (value : Int) : Bytes :=
  let magnitude := Bytes.ofNatLE value.natAbs
  let sign := if value < 0 then 0x80 else 0
  match magnitude.getLast? with
  | none => []
  | some last =>
      if last &&& 0x80 = 0 then magnitude.dropLast ++ [last ||| sign]
      else magnitude ++ [sign]

-- An element is true unless it spells zero, possibly a negative one.
def truthy (bytes : Bytes) : Bool :=
  match bytes.getLast? with
  | none => false
  | some last => bytes.dropLast.any (· != 0) || (last != 0 && last != 0x80)

-- The element that an opcode leaves for its result.
def ofBool (value : Bool) : Bytes :=
  if value then [1] else []

end ScriptNum

end SigOps
