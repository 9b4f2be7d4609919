namespace SigOps

structure Opcode where
  byte : UInt8
deriving DecidableEq

namespace Opcode

def checkSig : Opcode := ⟨0xac⟩

def checkSigVerify : Opcode := ⟨0xad⟩

def checkMultiSig : Opcode := ⟨0xae⟩

def checkMultiSigVerify : Opcode := ⟨0xaf⟩

-- The names of the operations from 0x61 to 0xba.
def operatorNames : List String :=
  ["OP_NOP", "OP_VER", "OP_IF", "OP_NOTIF", "OP_VERIF", "OP_VERNOTIF", "OP_ELSE", "OP_ENDIF",
    "OP_VERIFY", "OP_RETURN", "OP_TOALTSTACK", "OP_FROMALTSTACK", "OP_2DROP", "OP_2DUP", "OP_3DUP",
    "OP_2OVER", "OP_2ROT", "OP_2SWAP", "OP_IFDUP", "OP_DEPTH", "OP_DROP", "OP_DUP", "OP_NIP",
    "OP_OVER", "OP_PICK", "OP_ROLL", "OP_ROT", "OP_SWAP", "OP_TUCK", "OP_CAT", "OP_SUBSTR",
    "OP_LEFT", "OP_RIGHT", "OP_SIZE", "OP_INVERT", "OP_AND", "OP_OR", "OP_XOR", "OP_EQUAL",
    "OP_EQUALVERIFY", "OP_RESERVED1", "OP_RESERVED2", "OP_1ADD", "OP_1SUB", "OP_2MUL", "OP_2DIV",
    "OP_NEGATE", "OP_ABS", "OP_NOT", "OP_0NOTEQUAL", "OP_ADD", "OP_SUB", "OP_MUL", "OP_DIV",
    "OP_MOD", "OP_LSHIFT", "OP_RSHIFT", "OP_BOOLAND", "OP_BOOLOR", "OP_NUMEQUAL",
    "OP_NUMEQUALVERIFY", "OP_NUMNOTEQUAL", "OP_LESSTHAN", "OP_GREATERTHAN", "OP_LESSTHANOREQUAL",
    "OP_GREATERTHANOREQUAL", "OP_MIN", "OP_MAX", "OP_WITHIN", "OP_RIPEMD160", "OP_SHA1",
    "OP_SHA256", "OP_HASH160", "OP_HASH256", "OP_CODESEPARATOR", "OP_CHECKSIG",
    "OP_CHECKSIGVERIFY", "OP_CHECKMULTISIG", "OP_CHECKMULTISIGVERIFY", "OP_NOP1", "OP_CLTV",
    "OP_CSV", "OP_NOP4", "OP_NOP5", "OP_NOP6", "OP_NOP7", "OP_NOP8", "OP_NOP9", "OP_NOP10",
    "OP_CHECKSIGADD"]

-- Bytes above the last assigned operation are unsuccessful returns, but for the highest.
def name (opcode : Opcode) : String :=
  let code := opcode.byte.toNat
  if code ≤ 0x4b then "OP_PUSHBYTES_" ++ toString code
  else if code = 0x4c then "OP_PUSHDATA1"
  else if code = 0x4d then "OP_PUSHDATA2"
  else if code = 0x4e then "OP_PUSHDATA4"
  else if code = 0x4f then "OP_PUSHNUM_NEG1"
  else if code = 0x50 then "OP_RESERVED"
  else if code ≤ 0x60 then "OP_PUSHNUM_" ++ toString (code - 0x50)
  else if code = 0xff then "OP_INVALIDOPCODE"
  else operatorNames.getD (code - 0x61) ("OP_RETURN_" ++ toString code)

end Opcode

end SigOps
