namespace SigOps.Curve

-- Reads `count` from its most significant of `width` binary digits, doubling at each digit and
-- stepping at each one that is set. The same walk computes powers of a residue and multiples of a
-- point.
def ladder {α : Type} (start : α) (double step : α → α) : (width count : Nat) → α
  | 0, _ => start
  | width + 1, count =>
      let doubled := double (ladder start double step width (count / 2))
      if count % 2 = 0 then doubled else step doubled

-- A relation that survives doubling and stepping relates every count that fits to its result.
theorem ladder_relates {α : Type} {start : α} {double step : α → α} (relates : Nat → α → Prop)
    (hstart : relates 0 start)
    (hdouble : ∀ count value, relates count value → relates (2 * count) (double value))
    (hstep : ∀ count value, relates count value → relates (count + 1) (step value))
    (width count : Nat) (hfits : count >>> width = 0) :
    relates count (ladder start double step width count) := by
  induction width generalizing count with
  | zero =>
      obtain rfl : count = 0 := hfits
      exact hstart
  | succ width ih =>
      have hhalf := hdouble _ _ (ih (count / 2) (by rwa [← Nat.shiftRight_succ_inside]))
      simp only [ladder]
      split
      · rename_i heven
        rwa [show 2 * (count / 2) = count by omega] at hhalf
      · have hnext := hstep _ _ hhalf
        rwa [show 2 * (count / 2) + 1 = count by omega] at hnext

end SigOps.Curve
