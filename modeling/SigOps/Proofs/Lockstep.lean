import SigOps.Proofs.Basic

namespace SigOps

variable {α β ε σ τ : Type}

-- The stricter check gives the result of the other or fails for an excused reason.
def Tightens (excused : ε → Prop) (strict lenient : Except ε α) : Prop :=
  strict = lenient ∨ ∃ fault, strict = .error fault ∧ excused fault

namespace Tightens

variable {excused : ε → Prop}

theorem bind {strict lenient : Except ε α} {next next' : α → Except ε β}
    (hfirst : Tightens excused strict lenient)
    (hnext : ∀ value, strict = .ok value → Tightens excused (next value) (next' value)) :
    Tightens excused (strict >>= next) (lenient >>= next') := by
  rcases hfirst with rfl | ⟨fault, rfl, hfault⟩
  · cases strict with
    | ok value => exact hnext value rfl
    | error fault => exact .inl rfl
  · exact .inr ⟨fault, rfl, hfault⟩

end Tightens

-- A stricter run that is excused says nothing about the other.
inductive Agree (related : σ → τ → Prop) (excused : ε → Prop) :
    EStateM.Result ε σ α → EStateM.Result ε τ α → Prop where
  | ok (value : α) {left : σ} {right : τ} (hrelated : related left right) :
      Agree related excused (.ok value left) (.ok value right)
  | error (fault : ε) {left : σ} {right : τ} (hrelated : related left right) :
      Agree related excused (.error fault left) (.error fault right)
  | excused {fault : ε} (hfault : excused fault) (left : σ) (result : EStateM.Result ε τ α) :
      Agree related excused (.error fault left) result

namespace Agree

variable {related : σ → τ → Prop} {excused : ε → Prop}

theorem of_ok {value : α} {left : σ} {result : EStateM.Result ε τ α}
    (hagree : Agree related excused (.ok value left) result) :
    ∃ right, result = .ok value right ∧ related left right := by
  cases hagree with
  | ok _ hrelated => exact ⟨_, rfl, hrelated⟩

theorem excused_of_ok {fault : ε} {value : α} {left : σ} {right : τ}
    (hagree : Agree related excused (.error fault left) (.ok value right)) : excused fault := by
  cases hagree with
  | excused hfault => exact hfault

theorem verdict_eq {first : EStateM.Result ε σ α} {second : EStateM.Result ε τ α}
    (hagree : Agree related excused first second) (hnever : ∀ fault, ¬excused fault) :
    verdict first = verdict second := by
  cases hagree with
  | ok value _ => rfl
  | error fault _ => rfl
  | excused hfault => exact absurd hfault (hnever _)

end Agree

-- Two runs, the first of them checked more strictly. They go through related states to the same
-- result, until the stricter one fails for a reason that excuses it.
def Lockstep (related : σ → τ → Prop) (excused : ε → Prop) (strict : EStateM ε σ α)
    (lenient : EStateM ε τ α) : Prop :=
  ∀ left right, related left right → Agree related excused (strict left) (lenient right)

namespace Lockstep

variable {related : σ → τ → Prop} {excused : ε → Prop}

theorem pure (value : α) : Lockstep related excused (Pure.pure value) (Pure.pure value) :=
  fun _ _ hrelated => .ok value hrelated

theorem throw (fault : ε) :
    Lockstep (α := α) related excused (MonadExcept.throw fault) (MonadExcept.throw fault) :=
  fun _ _ hrelated => .error fault hrelated

theorem of_ok {strict : EStateM ε σ α} {lenient : EStateM ε τ α} {left after : σ} {right : τ}
    {value : α} (hlockstep : Lockstep related excused strict lenient)
    (hrelated : related left right) (hstrict : strict left = .ok value after) :
    ∃ after', lenient right = .ok value after' ∧ related after after' := by
  have hagree := hlockstep left right hrelated
  rw [hstrict] at hagree
  exact hagree.of_ok

-- Runs of one action from equal states.
theorem same (action : EStateM ε σ α) : Lockstep Eq excused action action := by
  rintro state _ rfl
  cases action state with
  | ok value after => exact .ok value rfl
  | error fault after => exact .error fault rfl

theorem bind {strict : EStateM ε σ α} {lenient : EStateM ε τ α} {next : α → EStateM ε σ β}
    {next' : α → EStateM ε τ β} (hfirst : Lockstep related excused strict lenient)
    (hnext : ∀ value, Lockstep related excused (next value) (next' value)) :
    Lockstep related excused (strict >>= next) (lenient >>= next') := by
  intro left right hrelated
  have hagree := hfirst left right hrelated
  simp only [Bind.bind, EStateM.bind]
  generalize strict left = first at hagree
  generalize lenient right = second at hagree
  cases hagree with
  | ok value hafter => exact hnext value _ _ hafter
  | error fault hafter => exact .error fault hafter
  | excused hfault => exact .excused hfault _ _

-- A check that passes is known to have passed in what follows.
theorem check {strict lenient : Except ε α} {next : α → EStateM ε σ β}
    {next' : α → EStateM ε τ β} (hfirst : Tightens excused strict lenient)
    (hnext : ∀ value, strict = .ok value → Lockstep related excused (next value) (next' value)) :
    Lockstep related excused (ofExcept strict >>= next) (ofExcept lenient >>= next') := by
  rcases hfirst with rfl | ⟨fault, rfl, hfault⟩
  · cases strict with
    | ok value => exact hnext value rfl
    | error fault => exact throw fault
  · exact fun left right hrelated => .excused hfault left _

-- The runs may go on from what they read off their states.
theorem read {next : σ → EStateM ε σ β} {next' : τ → EStateM ε τ β}
    (hnext : ∀ left right, related left right →
      Lockstep related excused (next left) (next' right)) :
    Lockstep related excused (get >>= next) (get >>= next') :=
  fun left right hrelated => hnext left right hrelated left right hrelated

theorem ofExcept (outcome : Except ε α) :
    Lockstep (σ := σ) (τ := τ) related excused (ofExcept outcome) (ofExcept outcome) := by
  cases outcome with
  | ok value => exact .pure value
  | error fault => exact .throw fault

end Lockstep

end SigOps
