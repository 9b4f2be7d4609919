import Mathlib.Data.List.Prime
import Mathlib.NumberTheory.LucasPrimality
import Mathlib.Tactic.NormNum.Prime
import SigOps.Proofs.Curve.Residue

namespace SigOps.Curve

-- The primes that make up the predecessor of a number, and a residue meant to generate the others.
structure LucasStep where
  generator : Nat
  factors : List Nat

namespace LucasStep

def number (step : LucasStep) : Nat := step.factors.prod + 1

instance (step : LucasStep) : NeZero step.number := ⟨Nat.succ_ne_zero _⟩

def generatorPower (step : LucasStep) (exponent : Nat) : Fin step.number :=
  power (Fin.ofNat step.number step.generator) exponent

def passes (known : List Nat) (step : LucasStep) : Bool :=
  step.factors.prod < 2 ^ width && step.factors.all (known.contains ·) &&
    step.generatorPower step.factors.prod == 1 &&
    step.factors.all fun factor => step.generatorPower (step.factors.prod / factor) != 1

-- The numbers known to be prime after all the steps, of which each may use the ones before.
def certified : (known : List Nat) → List LucasStep → List Nat
  | known, [] => known
  | known, step :: rest =>
      certified (if step.passes known then step.number :: known else known) rest

theorem generatorPower_eq_one_iff (step : LucasStep) (exponent : Nat)
    (hfits : exponent < 2 ^ width) :
    step.generatorPower exponent = 1 ↔ (step.generator : ZMod step.number) ^ exponent = 1 := by
  rw [← residue_inj, generatorPower, residue_power _ _ hfits, residue_ofNat, residue_one]

-- A residue whose order is one less than the modulus exists only for a prime. Its powers are
-- computed by the ladder that runs.
theorem prime_of_passes {known : List Nat} (hknown : ∀ number ∈ known, number.Prime)
    {step : LucasStep} (hpasses : step.passes known = true) : step.number.Prime := by
  simp only [passes, Bool.and_eq_true, decide_eq_true_eq, List.all_eq_true, List.contains_iff_mem,
    beq_iff_eq, bne_iff_ne, ne_eq] at hpasses
  obtain ⟨⟨⟨hfits, hfactors⟩, hwhole⟩, hparts⟩ := hpasses
  apply lucas_primality step.number (step.generator : ZMod step.number)
  · exact (step.generatorPower_eq_one_iff _ hfits).mp hwhole
  · intro divisor hprime hdivides
    obtain ⟨factor, hmem, hdvd⟩ := (Prime.dvd_prod_iff hprime.prime).mp hdivides
    obtain rfl := (Nat.prime_dvd_prime_iff_eq hprime (hknown factor (hfactors factor hmem))).mp hdvd
    have hsmall : step.factors.prod / divisor < 2 ^ width := (Nat.div_le_self _ _).trans_lt hfits
    exact (step.generatorPower_eq_one_iff _ hsmall).not.mp (hparts divisor hmem)

theorem prime_of_mem_certified {known : List Nat} (hknown : ∀ number ∈ known, number.Prime)
    (steps : List LucasStep) : ∀ number ∈ certified known steps, number.Prime := by
  induction steps generalizing known with
  | nil => exact hknown
  | cons step rest ih =>
      apply ih
      intro number hmem
      split at hmem
      · rename_i hpasses
        rcases List.mem_cons.mp hmem with rfl | hmem
        · exact prime_of_passes hknown hpasses
        · exact hknown number hmem
      · exact hknown number hmem

end LucasStep

def smallPrimes : List Nat :=
  [2, 3, 5, 7, 11, 17, 19, 29, 31, 41, 53, 59, 97, 101, 103, 109, 113, 149, 239, 293, 461, 631, 797,
    971, 1373, 1627, 1871, 2011, 2621, 2657, 2731, 2861, 4051, 4423, 5323, 7723, 9349, 13441, 16699,
    20113, 24809, 28181]

-- The steps up to the group order.
def orderSteps : List LucasStep :=
  [⟨3, [2, 3, 5, 2861]⟩, ⟨23, [2, 2, 2, 3, 97, 2011]⟩,
    ⟨3, [2, 2, 2, 2, 16699, 85831, 4681609]⟩, ⟨3, [2, 2, 2, 7, 19, 113]⟩,
    ⟨6, [2, 3, 797, 9349]⟩, ⟨3, [2, 2, 2, 17, 59, 4051, 120233, 44706919]⟩,
    ⟨3, [2, 2, 2, 2, 7, 2731]⟩, ⟨5, [2, 2, 2, 41, 59, 28181]⟩, ⟨3, [2, 3, 5, 29, 1871]⟩,
    ⟨2, [2, 2, 3, 3, 11, 461, 1627771]⟩, ⟨2, [2, 293, 305873, 545358713, 297159362677]⟩,
    ⟨2, [2, 2, 3, 3, 3, 109, 29047611873442575647497758179]⟩,
    ⟨7, [2, 2, 2, 2, 2, 2, 3, 149, 631, 107361793816595537, 174723607534414371449,
      341948486974166000522343609283189]⟩]

-- The steps up to the prime of the field.
def fieldSteps : List LucasStep :=
  [⟨13, [2, 5, 971, 1373]⟩, ⟨6, [2, 2, 2, 5, 5, 2621, 24809, 13331831]⟩,
    ⟨5, [2, 2, 2, 3, 5323, 173378833005251801]⟩, ⟨6, [2, 3, 22149492674086928081353]⟩,
    ⟨3, [2, 2, 2, 2, 5, 5, 103]⟩, ⟨2, [2, 2, 101, 239]⟩, ⟨10, [2, 2, 3, 5, 20113]⟩,
    ⟨3, [2, 3, 1206781]⟩, ⟨3, [2, 2, 2, 2, 5, 5, 5, 5, 7, 29, 53]⟩,
    ⟨3, [2, 2, 2, 7, 7, 11, 1627, 2657, 4423, 41201, 96557, 7240687, 107590001]⟩,
    ⟨10, [2, 3, 5, 29, 29, 31, 7723, 132896956044521568488119,
      255515944373312847190720520512484175977]⟩,
    ⟨3, [2, 3, 7, 13441,
      205115282021455665897114700593932402728804164701536103180137503955397371]⟩]

theorem prime_of_mem_smallPrimes : ∀ number ∈ smallPrimes, number.Prime := by
  simp only [smallPrimes, List.forall_mem_cons, List.not_mem_nil, false_implies, implies_true,
    and_true]
  norm_num

instance groupOrder_prime : Fact groupOrder.Prime :=
  ⟨LucasStep.prime_of_mem_certified prime_of_mem_smallPrimes orderSteps _ (by decide +kernel)⟩

instance fieldPrime_prime : Fact fieldPrime.Prime :=
  ⟨LucasStep.prime_of_mem_certified prime_of_mem_smallPrimes fieldSteps _ (by decide +kernel)⟩

end SigOps.Curve
