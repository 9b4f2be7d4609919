import SigOps.Error

namespace SigOps

-- The state that the signature opcodes share. An action that fails keeps the state it reached.
structure Machine where
  stack : Stack
  -- A machine word, which wraps around when it overflows.
  opCount : UInt64 := 0
  log : DigestLog := []

abbrev Eval := EStateM ScriptError Machine

abbrev LogM := EStateM ScriptError DigestLog

namespace Machine

-- Runs an action that touches the stack only.
def onStack {α : Type} (action : StackM α) : Eval α := fun machine =>
  match action machine.stack with
  | .ok value stack => .ok value { machine with stack }
  | .error fault stack => .error (.stack fault) { machine with stack }

-- Runs an action that touches the log only.
def onLog {α : Type} (action : LogM α) : Eval α := fun machine =>
  match action machine.log with
  | .ok value log => .ok value { machine with log }
  | .error fault log => .error fault { machine with log }

def addOps (count : Nat) : Eval Unit :=
  modify fun machine => { machine with opCount := machine.opCount + UInt64.ofNat count }

end Machine

namespace DigestSource

def request (source : DigestSource) (hashType : HashType) (signatures : List Bytes) :
    LogM Digest := fun log =>
  match source.ask hashType signatures log with
  | .ok digest extended => .ok digest extended
  | .error fault extended => .error (.digest fault) extended

end DigestSource

end SigOps
