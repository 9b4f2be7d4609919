namespace SigOps

-- Each rule makes some encodings, otherwise tolerated, abort the script.
inductive Rule where
  -- Signatures are strictly encoded with a defined hash type, keys are compressed or uncompressed.
  | strictEnc
  -- Signatures are strictly encoded.
  | derSig
  -- Signatures are strictly encoded and S is at most half the group order.
  | lowS
  -- The extra element consumed by a multisig is empty.
  | nullDummy
  -- A check that fails had only empty signatures.
  | nullFail
  -- Keys are compressed.
  | witnessPubkeyType
deriving DecidableEq

namespace Rule

def all : List Rule :=
  [.strictEnc, .derSig, .lowS, .nullDummy, .nullFail, .witnessPubkeyType]

-- The position of the rule in a flag word.
def bit : Rule → Nat
  | .strictEnc => 1
  | .derSig => 2
  | .lowS => 3
  | .nullDummy => 4
  | .nullFail => 14
  | .witnessPubkeyType => 15

def name : Rule → String
  | .strictEnc => "STRICTENC"
  | .derSig => "DERSIG"
  | .lowS => "LOW_S"
  | .nullDummy => "NULLDUMMY"
  | .nullFail => "NULLFAIL"
  | .witnessPubkeyType => "WITNESS_PUBKEYTYPE"

end Rule

-- A set of enforced rules.
structure Flags where
  enforces : Rule → Bool

namespace Flags

def none : Flags := ⟨fun _ => false⟩

-- Every rule of relay policy.
def standard : Flags := ⟨fun _ => true⟩

def enable (flags : Flags) (rule : Rule) : Flags :=
  ⟨fun other => other == rule || flags.enforces other⟩

-- Bits of the word that stand for no rule are dropped.
def ofWord (word : Nat) : Flags := ⟨fun rule => word.testBit rule.bit⟩

def rules (flags : Flags) : List Rule := Rule.all.filter flags.enforces

def toWord (flags : Flags) : Nat :=
  flags.rules.foldl (fun word rule => word ||| 1 <<< rule.bit) 0

-- A check that a rule asks for. Without the rule nothing is checked.
def whenEnforced {ε : Type} (flags : Flags) (rule : Rule) (check : Except ε Unit) : Except ε Unit :=
  if flags.enforces rule then check else .ok ()

-- Three rules ask for the strict encoding of a signature.
def requiresDer (flags : Flags) : Bool :=
  flags.enforces .strictEnc || flags.enforces .derSig || flags.enforces .lowS

def Subset (fewer more : Flags) : Prop :=
  ∀ rule, fewer.enforces rule = true → more.enforces rule = true

instance : HasSubset Flags := ⟨Subset⟩

end Flags

end SigOps
