import SigOps.Proofs.Footprint

namespace SigOps

-- One evaluation of an opcode. The calls of a session may come from different scripts: each has its
-- own rules and digests.
structure Call where
  source : DigestSource
  flags : Flags
  opcode : Opcode
  before : Machine

namespace Call

variable (call : Call)

def result : EStateM.Result ScriptError Machine Unit :=
  evalOpcode call.source call.flags call.opcode call.before

def outcome : Except ScriptError Unit := verdict call.result

def after : Machine := finalState call.result

-- Whether the call leaves the result of its check on the stack.
def leavesResult : Bool := decide (call.opcode.Pushes ∧ call.outcome = .ok ())

theorem exists_footprint :
    ∃ taken charged pushed log, Footprint call.opcode call.before taken charged call.outcome ∧
      Leaves call.opcode call.outcome pushed ∧
      call.after = ⟨⟨pushed ++ call.before.stack.items.drop taken,
        call.before.stack.requireMinimal⟩, call.before.opCount + UInt64.ofNat charged, log⟩ :=
  evalOpcode_moves call.source call.flags call.before call.opcode

theorem outcome_underflow_iff :
    call.outcome = .error (.stack .underflow) ↔ Starved call.opcode call.before := by
  obtain ⟨_, _, _, _, hfootprint, -, -⟩ := call.exists_footprint
  exact hfootprint.underflow_iff

theorem items_of_starved (hstarved : Starved call.opcode call.before) :
    call.after.stack.items = [] := by
  obtain ⟨taken, _, pushed, _, hfootprint, hleaves, hafter⟩ := call.exists_footprint
  rw [call.outcome_underflow_iff.mpr hstarved] at hfootprint hleaves
  have hheight := hfootprint.height_le
  cases hleaves
  rw [hafter, List.nil_append, List.drop_of_length_le hheight]

end Call

-- Each call starts from a machine that shares something with the one before it left.
inductive Session (shares : Machine → Machine → Prop) : Machine → List Call → Machine → Prop where
  | nil (machine : Machine) : Session shares machine [] machine
  | cons {start last : Machine} {call : Call} {rest : List Call}
      (hshares : shares start call.before) (hrest : Session shares call.after rest last) :
      Session shares start (call :: rest) last

-- A run hands on the machine itself, so it is a session whatever has to be shared.
theorem exists_session_run {shares : Machine → Machine → Prop}
    (hself : ∀ machine, shares machine machine) (source : DigestSource) (flags : Flags)
    (opcodes : List Opcode) (machine : Machine) :
    ∃ calls last, Session shares machine calls last ∧ calls.map Call.opcode = opcodes ∧
      calls.map Call.result = run source flags opcodes machine := by
  induction opcodes generalizing machine with
  | nil => exact ⟨[], machine, .nil machine, rfl, rfl⟩
  | cons opcode rest ih =>
      obtain ⟨calls, last, hsession, hopcodes, hresults⟩ :=
        ih (Call.after ⟨source, flags, opcode, machine⟩)
      refine ⟨⟨source, flags, opcode, machine⟩ :: calls, last, .cons (hself machine) hsession,
        ?_, ?_⟩
      · rw [List.map_cons, hopcodes]
      · rw [List.map_cons, hresults]
        rfl

theorem Leaves.of_mem {opcode : Opcode} {outcome : Except ScriptError Unit} {pushed : List Bytes}
    (hleaves : Leaves opcode outcome pushed) {item : Bytes} (hmem : item ∈ pushed) :
    item = [1] ∨ item = [] := by
  cases hleaves with
  | result _ hitem =>
      obtain rfl := List.mem_singleton.mp hmem
      exact hitem
  | nothing => cases hmem

theorem Leaves.length_eq {opcode : Opcode} {outcome : Except ScriptError Unit} {pushed : List Bytes}
    (hleaves : Leaves opcode outcome pushed) :
    pushed.length = if opcode.Pushes ∧ outcome = .ok () then 1 else 0 := by
  cases hleaves with
  | result hpushes _ => rw [if_pos ⟨hpushes, rfl⟩, List.length_singleton]
  | nothing hnone => rw [if_neg hnone, List.length_nil]

-- What is left of the first stack lies below the results, in its old order.
theorem Session.exists_results {start last : Machine} {calls : List Call}
    (hsession : Session (fun earlier later => later.stack = earlier.stack) start calls last) :
    ∃ taken results,
      last.stack = ⟨results ++ start.stack.items.drop taken, start.stack.requireMinimal⟩ ∧
      (∀ item ∈ results, item = [1] ∨ item = []) ∧
      results.length ≤ calls.countP Call.leavesResult := by
  induction hsession with
  | nil machine => exact ⟨0, [], rfl, by simp, Nat.le_refl 0⟩
  | @cons start last call rest hshares _ ih =>
      obtain ⟨taken', results, hlast, hitems, hlength⟩ := ih
      obtain ⟨taken, charged, pushed, log, -, hleaves, hafter⟩ := call.exists_footprint
      have hstack : call.after.stack =
          ⟨pushed ++ start.stack.items.drop taken, start.stack.requireMinimal⟩ := by
        rw [hafter, hshares]
      refine ⟨taken + (taken' - pushed.length), results ++ pushed.drop taken', ?_, ?_, ?_⟩
      · rw [hlast, hstack, List.drop_append, List.drop_drop, List.append_assoc]
      · intro item hmem
        rcases List.mem_append.mp hmem with hmem | hmem
        · exact hitems item hmem
        · exact hleaves.of_mem (List.mem_of_mem_drop hmem)
      · have hpushed := hleaves.length_eq
        simp only [List.length_append, List.length_drop, List.countP_cons, Call.leavesResult,
          decide_eq_true_eq] at hlength ⊢
        omega

-- An opcode takes its operands off the stack and may leave one result. It never touches what lies
-- below, and asking for an element that is not there empties the stack.
theorem Session.footprint :
    (∀ call : Call,
      (∃ taken charged pushed log, Footprint call.opcode call.before taken charged call.outcome ∧
        Leaves call.opcode call.outcome pushed ∧
        call.after = ⟨⟨pushed ++ call.before.stack.items.drop taken,
          call.before.stack.requireMinimal⟩, call.before.opCount + UInt64.ofNat charged, log⟩) ∧
      (call.outcome = .error (.stack .underflow) ↔ Starved call.opcode call.before) ∧
      (Starved call.opcode call.before → call.after.stack.items = [])) ∧
    ∀ {start last : Machine} {calls : List Call},
      Session (fun earlier later => later.stack = earlier.stack) start calls last →
      ∃ taken results,
        last.stack = ⟨results ++ start.stack.items.drop taken, start.stack.requireMinimal⟩ ∧
        (∀ item ∈ results, item = [1] ∨ item = []) ∧
        results.length ≤ calls.countP Call.leavesResult := by
  refine ⟨?_, Session.exists_results⟩
  intro call
  exact ⟨call.exists_footprint, call.outcome_underflow_iff, call.items_of_starved⟩

-- An empty signature fails, then no signature under no key passes. The result is read as a number
-- of keys, and there are none.
theorem Session.footprint_emptied :
    ∃ calls last,
      Session (fun earlier later => later.stack = earlier.stack)
        ⟨⟨[[], [], [], [5]], true⟩, 0, []⟩ calls last ∧
      calls.map Call.outcome = [.ok (), .ok (), .error (.stack .underflow)] ∧
      last.stack.items = [] ∧
      ∃ taken results, last.stack = ⟨results ++ [[], [], [], [5]].drop taken, true⟩ ∧
        (∀ item ∈ results, item = [1] ∨ item = []) ∧
        results.length ≤ calls.countP Call.leavesResult := by
  obtain ⟨hcall, hresults⟩ := Session.footprint
  have hsession : Session (fun earlier later => later.stack = earlier.stack)
      ⟨⟨[[], [], [], [5]], true⟩, 0, []⟩
      [⟨.constant zeroDigest, Flags.none, .checkSig, ⟨⟨[[], [], [], [5]], true⟩, 0, []⟩⟩,
        ⟨.constant zeroDigest, Flags.none, .checkMultiSig, ⟨⟨[[], [], [5]], true⟩, 0, []⟩⟩,
        ⟨.constant zeroDigest, Flags.none, .checkMultiSigVerify, ⟨⟨[[1]], true⟩, 0, []⟩⟩] _ :=
    .cons rfl (.cons rfl (.cons rfl (.nil _)))
  obtain ⟨-, hunderflow, hemptied⟩ :=
    hcall ⟨.constant zeroDigest, Flags.none, .checkMultiSigVerify, ⟨⟨[[1]], true⟩, 0, []⟩⟩
  exact ⟨_, _, hsession, rfl, hemptied (hunderflow.mp rfl), hresults hsession⟩

end SigOps
