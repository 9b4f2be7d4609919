import Mathlib.Data.List.Perm.Subperm
import Mathlib.Data.Nat.Init
import SigOps.Machine

namespace SigOps

section Lists

variable {α : Type} [DecidableEq α] {list : List α} {element : α}

theorem nodup_eraseDups (list : List α) : list.eraseDups.Nodup := by
  induction hlength : list.length using Nat.strong_induction_on generalizing list with
  | _ length ih =>
      cases list with
      | nil => exact List.nodup_nil
      | cons first rest =>
          have hle := List.length_filter_le (fun other => !other == first) rest
          rw [List.length_cons] at hlength
          rw [List.eraseDups_cons, List.nodup_cons]
          exact ⟨by simp, ih _ (by omega) _ rfl⟩

theorem length_eraseDups_le (list : List α) : list.eraseDups.length ≤ list.length := by
  have hsubset : list.eraseDups ⊆ list := fun element => List.mem_eraseDups.mp
  exact ((nodup_eraseDups list).subperm hsubset).length_le

theorem eraseDups_concat_of_mem (hmem : element ∈ list) :
    (list ++ [element]).eraseDups = list.eraseDups := by
  simp [List.eraseDups_append, List.removeAll, hmem]

theorem eraseDups_concat_of_not_mem (hnot : element ∉ list) :
    (list ++ [element]).eraseDups = list.eraseDups ++ [element] := by
  have hsingle : [element].eraseDups = [element] := rfl
  simp [List.eraseDups_append, List.removeAll, hnot, hsingle]

end Lists

section Checks

variable {α β γ ε φ : Type}

theorem bind_eq_ok_iff {first : Except ε α} {next : α → Except ε β} {result : β} :
    first >>= next = .ok result ↔ ∃ value, first = .ok value ∧ next value = .ok result := by
  cases first with
  | ok value => simp [Bind.bind, Except.bind]
  | error fault => simp [Bind.bind, Except.bind]

theorem map_bind (wrap : β → γ) (first : Except ε α) (next : α → Except ε β) :
    (first >>= next).map wrap = first >>= fun value => (next value).map wrap := by
  cases first with
  | ok value => rfl
  | error fault => rfl

theorem mapError_eq_ok_iff {result : Except ε α} {wrap : ε → φ} {value : α} :
    result.mapError wrap = .ok value ↔ result = .ok value := by
  constructor
  · intro hresult
    cases result with
    | ok _ =>
        cases hresult
        rfl
    | error _ => cases hresult
  · rintro rfl
    rfl

end Checks

section Actions

variable {α β ε σ : Type} {action : EStateM ε σ α} {next : α → EStateM ε σ β} {state after : σ}

-- The result without the state.
def verdict : EStateM.Result ε σ α → Except ε α
  | .ok value _ => .ok value
  | .error fault _ => .error fault

-- The state without the result, whether or not it is an error.
def finalState : EStateM.Result ε σ α → σ
  | .ok _ state => state
  | .error _ state => state

theorem exists_state_of_verdict {result : EStateM.Result ε σ α} {value : α}
    (hverdict : verdict result = .ok value) : ∃ state, result = .ok value state := by
  cases result with
  | ok other state =>
      obtain rfl := Except.ok.inj hverdict
      exact ⟨state, rfl⟩
  | error fault state => cases hverdict

-- Results that all pass are given by their states.
theorem eq_map_of_passed {results : List (EStateM.Result ε σ Unit)}
    (hpassed : ∀ result ∈ results, verdict result = .ok ()) :
    results = (results.map finalState).map (.ok ()) := by
  induction results with
  | nil => rfl
  | cons result rest ih =>
      obtain ⟨hresult, hrest⟩ := List.forall_mem_cons.mp hpassed
      obtain ⟨state, rfl⟩ := exists_state_of_verdict hresult
      rw [List.map_cons, List.map_cons, ← ih hrest, finalState]

theorem bind_of_ok {value : α} (haction : action state = .ok value after) :
    (action >>= next) state = next value after := by
  simp only [Bind.bind, EStateM.bind, haction]

theorem bind_of_error {fault : ε} (haction : action state = .error fault after) :
    (action >>= next) state = .error fault after := by
  simp only [Bind.bind, EStateM.bind, haction]

theorem run_bind_eq_ok_iff {result : β} :
    (action >>= next) state = .ok result after ↔
      ∃ value middle, action state = .ok value middle ∧ next value middle = .ok result after := by
  cases haction : action state with
  | ok value middle => simp [bind_of_ok haction, and_assoc]
  | error fault middle => simp [bind_of_error haction]

theorem run_ofExcept_eq_ok_iff {outcome : Except ε α} {value : α} :
    (ofExcept outcome : EStateM ε σ α) state = .ok value after ↔
      outcome = .ok value ∧ state = after := by
  cases outcome with
  | ok other =>
      have hrun : (ofExcept (.ok other) : EStateM ε σ α) state = .ok other state := rfl
      simp [hrun]
  | error fault =>
      have hrun : (ofExcept (.error fault) : EStateM ε σ α) state = .error fault state := rfl
      simp [hrun]

theorem ofExcept_ok_bind (value : α) (next : α → EStateM ε σ β) :
    (ofExcept (.ok value) >>= next) = next value := rfl

theorem verdict_ofExcept (outcome : Except ε α) (state : σ) :
    verdict ((ofExcept outcome : EStateM ε σ α) state) = outcome := by
  cases outcome with
  | ok value => rfl
  | error fault => rfl

-- There is only one state to go on from.
theorem verdict_bind (action : EStateM ε Unit α) (next : α → EStateM ε Unit β) :
    verdict ((action >>= next) ()) =
      verdict (action ()) >>= fun value => verdict (next value ()) := by
  simp only [Bind.bind, EStateM.bind]
  cases action () with
  | ok value after => rfl
  | error fault after => rfl

end Actions

-- The digest of the signature below.
def zeroDigest : Digest := List.replicate 32 0

-- The signature that has the generator as its key and as its nonce. Its R and S are the same.
def generatorSignature : Bytes :=
  [0x30, 0x44, 0x02, 0x20] ++ Bytes.fixedBE 32 Curve.generatorX.val ++
    [0x02, 0x20] ++ Bytes.fixedBE 32 Curve.generatorX.val ++ [HashType.all.byte]

def generatorKey : Bytes :=
  0x04 :: (Bytes.fixedBE 32 Curve.generatorX.val ++ Bytes.fixedBE 32 Curve.generatorY.val)

end SigOps
