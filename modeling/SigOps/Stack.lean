import SigOps.ScriptNum

namespace SigOps

inductive StackError where
  | underflow
  | number (fault : NumError)
deriving DecidableEq

namespace StackError

def message : StackError → String
  | .underflow => "invalid stack operation"
  | .number fault => fault.message

end StackError

-- The head of the list is the top of the stack.
structure Stack where
  items : List Bytes
  requireMinimal : Bool := false
deriving DecidableEq

-- An operation that fails keeps what it already removed: the state is returned with the error.
abbrev StackM := EStateM StackError Stack

namespace Stack

def height (stack : Stack) : Nat := stack.items.length

def top? (stack : Stack) : Option Bytes := stack.items.head?

def pop : StackM Bytes := fun stack =>
  match stack.items with
  | [] => .error .underflow stack
  | item :: rest => .ok item { stack with items := rest }

-- The element is gone even if it spells no acceptable number.
def popNum : StackM Int := do
  let item ← pop
  match ScriptNum.decode (← get).requireMinimal item with
  | .ok value => pure value
  | .error fault => throw (.number fault)

def popBool : StackM Bool := do
  return ScriptNum.truthy (← pop)

-- Elements in the order in which they come off the stack.
def popMany : Nat → StackM (List Bytes)
  | 0 => pure []
  | count + 1 => do
      let item ← pop
      let rest ← popMany count
      return item :: rest

def push (item : Bytes) : StackM Unit :=
  modify fun stack => { stack with items := item :: stack.items }

def pushNum (value : Int) : StackM Unit := push (ScriptNum.encode value)

def pushBool (value : Bool) : StackM Unit := push (ScriptNum.ofBool value)

def renderItem (item : Bytes) : String :=
  if item.isEmpty then "<empty>" else item.toHex

-- The bottom of the stack comes first.
def render (stack : Stack) : String :=
  "Stack \x7b data: [" ++ ", ".intercalate (stack.items.reverse.map renderItem) ++
    "], verify_minimaldata: " ++ toString stack.requireMinimal ++ " \x7d"

end Stack

end SigOps
