import Mathlib.Algebra.Group.Nat.Defs
import SigOps.Proofs.Basic

namespace SigOps

namespace Stack

-- The stack without its first elements. Nothing is left when there are fewer.
def drop (count : Nat) (stack : Stack) : Stack := { stack with items := stack.items.drop count }

-- The number that the element at this depth spells, if there is an element.
def numberAt? (stack : Stack) (depth : Nat) : Option (Except NumError Int) :=
  stack.items[depth]?.map (ScriptNum.decode stack.requireMinimal)

@[simp] theorem drop_items (count : Nat) (stack : Stack) :
    (stack.drop count).items = stack.items.drop count := rfl

@[simp] theorem drop_requireMinimal (count : Nat) (stack : Stack) :
    (stack.drop count).requireMinimal = stack.requireMinimal := rfl

@[simp] theorem drop_zero (stack : Stack) : stack.drop 0 = stack := rfl

@[simp] theorem drop_drop (first second : Nat) (stack : Stack) :
    (stack.drop first).drop second = stack.drop (first + second) := by
  simp only [drop, List.drop_drop]

@[simp] theorem height_drop (count : Nat) (stack : Stack) :
    (stack.drop count).height = stack.height - count := by
  simp only [height, drop_items, List.length_drop]

@[simp] theorem numberAt?_drop (count depth : Nat) (stack : Stack) :
    (stack.drop count).numberAt? depth = stack.numberAt? (count + depth) := by
  simp only [numberAt?, drop_items, drop_requireMinimal, List.getElem?_drop]

-- Taking too many elements is the same however many they are.
theorem drop_of_height_le {count : Nat} {stack : Stack} (hle : stack.height ≤ count) :
    stack.drop count = { stack with items := [] } := by
  simp only [drop, List.drop_of_length_le hle]

theorem exists_item_drop {depth : Nat} {stack : Stack} (hlt : depth < stack.height) :
    ∃ item, (stack.drop depth).items = item :: (stack.drop (depth + 1)).items :=
  ⟨_, List.drop_eq_getElem_cons hlt⟩

theorem take_append_items_drop (depth count : Nat) (stack : Stack) :
    (stack.drop depth).items.take count ++ (stack.drop (depth + count)).items =
      (stack.drop depth).items := by
  rw [← drop_drop, drop_items count, List.take_append_drop]

theorem length_take_items_drop {depth count : Nat} {stack : Stack}
    (hle : depth + count ≤ stack.height) :
    ((stack.drop depth).items.take count).length = count := by
  simp only [height] at hle
  simp only [drop_items, List.length_take, List.length_drop]
  omega

theorem pop_of_empty {stack : Stack} (hempty : stack.height < 1) :
    pop stack = .error .underflow (stack.drop 1) := by
  have hitems : stack.items = [] := List.length_eq_zero_iff.mp (Nat.lt_one_iff.mp hempty)
  simp only [pop, drop, hitems, List.drop_nil]
  rw [← hitems]

theorem exists_pop {stack : Stack} (hpos : 1 ≤ stack.height) :
    ∃ item, stack.items = item :: (stack.drop 1).items ∧ pop stack = .ok item (stack.drop 1) := by
  obtain ⟨item, hitems⟩ := exists_item_drop (Nat.lt_of_succ_le hpos)
  rw [drop_zero] at hitems
  refine ⟨item, hitems, ?_⟩
  rw [pop, hitems]
  rfl

theorem popMany_of_lt {count : Nat} {stack : Stack} (hfew : stack.height < count) :
    popMany count stack = .error .underflow (stack.drop count) := by
  induction count generalizing stack with
  | zero => omega
  | succ count ih =>
      by_cases hempty : stack.height < 1
      · have hsame : stack.drop (count + 1) = stack.drop 1 := by
          rw [drop_of_height_le (Nat.le_of_lt hfew), drop_of_height_le (Nat.le_of_lt hempty)]
        rw [hsame]
        exact bind_of_error (pop_of_empty hempty)
      · obtain ⟨item, -, hpop⟩ := exists_pop (Nat.not_lt.mp hempty)
        have hfewer : (stack.drop 1).height < count := by
          rw [height_drop]
          omega
        have hrest := ih hfewer
        rw [drop_drop, Nat.add_comm] at hrest
        rw [popMany, bind_of_ok hpop, bind_of_error hrest]

theorem popMany_of_le {count : Nat} {stack : Stack} (hle : count ≤ stack.height) :
    popMany count stack = .ok (stack.items.take count) (stack.drop count) := by
  induction count generalizing stack with
  | zero => rfl
  | succ count ih =>
      obtain ⟨item, hitems, hpop⟩ := exists_pop (Nat.le_of_add_left_le hle)
      have hfewer : count ≤ (stack.drop 1).height := by
        rw [height_drop]
        omega
      have hrest := ih hfewer
      rw [drop_drop, Nat.add_comm] at hrest
      rw [popMany, bind_of_ok hpop, bind_of_ok hrest, hitems, List.take_succ_cons]
      rfl

theorem exists_item {stack : Stack} {depth : Nat} {number : Except NumError Int}
    (hnumber : stack.numberAt? depth = some number) :
    ∃ item, stack.items[depth]? = some item ∧
      ScriptNum.decode stack.requireMinimal item = number :=
  Option.map_eq_some_iff.mp hnumber

theorem lt_height_of_numberAt? {stack : Stack} {depth : Nat} {number : Except NumError Int}
    (hnumber : stack.numberAt? depth = some number) : depth < stack.height := by
  obtain ⟨item, hitem, -⟩ := exists_item hnumber
  exact (List.getElem?_eq_some_iff.mp hitem).choose

-- The element is taken even if it is no number.
theorem popNum_eq {stack : Stack} {number : Except NumError Int}
    (hnumber : stack.numberAt? 0 = some number) :
    popNum stack = match number with
      | .ok value => .ok value (stack.drop 1)
      | .error cause => .error (.number cause) (stack.drop 1) := by
  have hpos := lt_height_of_numberAt? hnumber
  obtain ⟨item, hitem, hdecode⟩ := exists_item hnumber
  obtain ⟨top, hitems, hpop⟩ := exists_pop hpos
  rw [hitems, List.getElem?_cons_zero, Option.some.injEq] at hitem
  subst top
  have hget : (get : StackM Stack) (stack.drop 1) = .ok (stack.drop 1) (stack.drop 1) := rfl
  rw [popNum, bind_of_ok hpop, bind_of_ok hget, drop_requireMinimal, hdecode]
  cases number with
  | ok value => rfl
  | error cause => rfl

theorem popNum_of_empty {stack : Stack} (hempty : stack.height < 1) :
    popNum stack = .error .underflow (stack.drop 1) := bind_of_error (pop_of_empty hempty)

end Stack

namespace Machine

variable {α : Type} {machine : Machine}

-- The machine after elements were taken off its stack and operations were counted.
def advance (taken charged : Nat) (machine : Machine) : Machine :=
  { machine with
    stack := machine.stack.drop taken, opCount := machine.opCount + UInt64.ofNat charged }

@[simp] theorem advance_stack (taken charged : Nat) :
    (machine.advance taken charged).stack = machine.stack.drop taken := rfl

@[simp] theorem advance_opCount (taken charged : Nat) :
    (machine.advance taken charged).opCount = machine.opCount + UInt64.ofNat charged := rfl

-- The count is exact where it fits the word.
theorem toNat_count_of_fits {opCount : UInt64} {charged : Nat}
    (hfits : opCount.toNat + charged < 2 ^ 64) :
    (opCount + UInt64.ofNat charged).toNat = opCount.toNat + charged := by
  have hcharged : charged < 2 ^ 64 := by omega
  rw [UInt64.toNat_add, UInt64.toNat_ofNat_of_lt' hcharged, Nat.mod_eq_of_lt hfits]

-- Counting nothing leaves the count alone.
@[simp] theorem advance_uncharged (taken : Nat) :
    machine.advance taken 0 = { machine with stack := machine.stack.drop taken } := by
  have hzero : UInt64.ofNat 0 = 0 := rfl
  simp only [advance, hzero, UInt64.add_zero]

@[simp] theorem advance_advance (taken charged taken' charged' : Nat) :
    (machine.advance taken charged).advance taken' charged' =
      machine.advance (taken + taken') (charged + charged') := by
  simp only [advance, Stack.drop_drop, UInt64.ofNat_add, UInt64.add_assoc]

theorem advance_of_height_le {taken taken' : Nat} (hle : machine.stack.height ≤ taken)
    (hle' : machine.stack.height ≤ taken') (charged : Nat) :
    machine.advance taken charged = machine.advance taken' charged := by
  simp only [advance, Stack.drop_of_height_le hle, Stack.drop_of_height_le hle']

theorem onStack_of_ok {action : StackM α} {value : α} {taken : Nat}
    (haction : action machine.stack = .ok value (machine.stack.drop taken)) :
    onStack action machine = .ok value (machine.advance taken 0) := by
  simp only [onStack, haction, advance_uncharged]

theorem onStack_of_error {action : StackM α} {fault : StackError} {taken : Nat}
    (haction : action machine.stack = .error fault (machine.stack.drop taken)) :
    onStack action machine = .error (.stack fault) (machine.advance taken 0) := by
  simp only [onStack, haction, advance_uncharged]

theorem pop_cases (machine : Machine) :
    (machine.stack.height < 1 ∧ onStack Stack.pop machine =
      .error (.stack .underflow) (machine.advance 1 0)) ∨
    ∃ item, machine.stack.items = item :: (machine.stack.drop 1).items ∧
      onStack Stack.pop machine = .ok item (machine.advance 1 0) := by
  by_cases hempty : machine.stack.height < 1
  · exact .inl ⟨hempty, onStack_of_error (Stack.pop_of_empty hempty)⟩
  · obtain ⟨item, hitems, hpop⟩ := Stack.exists_pop (Nat.not_lt.mp hempty)
    exact .inr ⟨item, hitems, onStack_of_ok hpop⟩

theorem popMany_cases (count : Nat) (machine : Machine) :
    (machine.stack.height < count ∧ onStack (Stack.popMany count) machine =
      .error (.stack .underflow) (machine.advance count 0)) ∨
    (count ≤ machine.stack.height ∧ onStack (Stack.popMany count) machine =
      .ok (machine.stack.items.take count) (machine.advance count 0)) := by
  by_cases hfew : machine.stack.height < count
  · exact .inl ⟨hfew, onStack_of_error (Stack.popMany_of_lt hfew)⟩
  · have henough := Nat.not_lt.mp hfew
    exact .inr ⟨henough, onStack_of_ok (Stack.popMany_of_le henough)⟩

theorem addOps_eq (count : Nat) : addOps count machine = .ok () (machine.advance 0 count) := rfl

theorem verdict_onLog (action : LogM α) (machine : Machine) :
    verdict (onLog action machine) = verdict (action machine.log) := by
  cases haction : action machine.log with
  | ok value log => simp only [onLog, haction, verdict]
  | error fault log => simp only [onLog, haction, verdict]

-- A check of the operands changes nothing but the log.
theorem exists_log_onLog (action : LogM α) (machine : Machine) :
    ∃ log, finalState (onLog action machine) = { machine with log } := by
  cases haction : action machine.log with
  | ok value log => exact ⟨log, by simp only [onLog, haction, finalState]⟩
  | error fault log => exact ⟨log, by simp only [onLog, haction, finalState]⟩

end Machine

end SigOps
