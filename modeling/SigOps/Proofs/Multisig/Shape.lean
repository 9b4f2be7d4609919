import Mathlib.Data.List.Chain
import SigOps.Proofs.Multisig.Course

namespace SigOps.Multisig

variable {σ : Type} {digestOf : HashType → EStateM ScriptError σ Digest} {flags : Flags}
  {signatures : List Bytes} {position : Nat} {keys : List Bytes} {state after : σ}
  {matched : List (Option Nat)}

-- Every signature has a key, up to the first one that has none. Each key leaves as many keys after
-- it as there are signatures after its own.
structure Shape (signatureCount keyCount : Nat) (matched : List (Option Nat)) (places : List Nat) :
    Prop where
  matched_eq :
    matched = places.map some ++ if places.length = signatureCount then [] else [none]
  length_le : places.length ≤ signatureCount
  increasing : places.Pairwise (· < ·)
  room (index : Nat) (hindex : index < places.length) :
    places[index] + (signatureCount - index) ≤ keyCount

theorem Shape.done (keyCount : Nat) : Shape 0 keyCount [] [] where
  matched_eq := rfl
  length_le := Nat.le_refl 0
  increasing := .nil
  room _ hindex := absurd hindex (Nat.not_lt_zero _)

theorem Shape.ended (signatureCount keyCount : Nat) :
    Shape (signatureCount + 1) keyCount [none] [] where
  matched_eq := rfl
  length_le := Nat.zero_le _
  increasing := .nil
  room _ hindex := absurd hindex (Nat.not_lt_zero _)

theorem Shape.found {signatureCount keyCount place : Nat} {matched : List (Option Nat)}
    {places : List Nat} (hshape : Shape signatureCount keyCount matched places)
    (hlater : ∀ later ∈ places, place < later) (hroom : place + (signatureCount + 1) ≤ keyCount) :
    Shape (signatureCount + 1) keyCount (some place :: matched) (place :: places) where
  matched_eq := by
    rw [hshape.matched_eq]
    simp only [List.map_cons, List.cons_append, List.length_cons, Nat.add_right_cancel_iff]
  length_le := Nat.succ_le_succ hshape.length_le
  increasing := .cons hlater hshape.increasing
  room index hindex := by
    cases index with
    | zero => exact hroom
    | succ index =>
        have hrest := hshape.room index (Nat.lt_of_succ_lt_succ hindex)
        rw [List.getElem_cons_succ, Nat.add_sub_add_right]
        exact hrest

theorem Course.of_few (hfew : keys.length < signatures.length) :
    Course digestOf flags signatures position keys state [] state := by
  cases signatures with
  | nil => exact absurd hfew (Nat.not_lt_zero _)
  | cons blob later => exact .few (Nat.le_of_lt_succ hfew)

theorem Course.eq_nil_of_few
    (hcourse : Course digestOf flags signatures position keys state matched after)
    (hfew : keys.length < signatures.length) : matched = [] ∧ state = after := by
  cases hcourse with
  | done => exact ⟨rfl, rfl⟩
  | few => exact ⟨rfl, rfl⟩
  | unreadable hmany | unmatched hmany | matched hmany =>
      rw [List.length_cons] at hfew
      omega

-- What is left of the keys after a match is still enough for the signatures that are left, so only
-- a signature without a key ends the matching early.
theorem Course.exists_shape {bound : Nat}
    (hcourse : Course digestOf flags signatures position keys state matched after)
    (henough : signatures.length ≤ keys.length) (hbound : position + keys.length = bound) :
    ∃ places, Shape signatures.length bound matched places ∧
      ∀ place ∈ places, position ≤ place := by
  induction hcourse with
  | done => exact ⟨[], .done _, by simp⟩
  | few hfew =>
      rw [List.length_cons] at henough
      omega
  | unreadable => exact ⟨[], .ended _ _, by simp⟩
  | unmatched => exact ⟨[], .ended _ _, by simp⟩
  | matched _ _ _ hfind _ ih =>
      obtain ⟨skipped, key, rfl, rfl, hreserved, -⟩ := findKey_eq_some hfind
      rw [List.length_append, List.length_cons] at hbound
      obtain ⟨places, hshape, hplaces⟩ := ih hreserved (by omega)
      refine ⟨_ :: places, hshape.found hplaces (by omega), ?_⟩
      intro place hplace
      rcases List.mem_cons.mp hplace with rfl | hplace
      · exact Nat.le_add_right _ _
      · have hle := hplaces place hplace
        omega

theorem Shape.none_mem_iff {signatureCount keyCount : Nat} {places : List Nat}
    (hshape : Shape signatureCount keyCount matched places) :
    none ∈ matched ↔ places.length ≠ signatureCount := by
  rw [hshape.matched_eq]
  split <;> simp_all

theorem Shape.filterMap_eq {signatureCount keyCount : Nat} {places : List Nat}
    (hshape : Shape signatureCount keyCount matched places) : matched.filterMap id = places := by
  rw [hshape.matched_eq]
  split <;> simp [List.filterMap_append, List.filterMap_map]

-- Whatever the keys are, those that are found are in order.
theorem Course.increasing
    (hcourse : Course digestOf flags signatures position keys state matched after) :
    (matched.filterMap id).Pairwise (· < ·) := by
  rcases Nat.lt_or_ge keys.length signatures.length with hfew | henough
  · rw [(hcourse.eq_nil_of_few hfew).1]
    exact .nil
  · obtain ⟨places, hshape, -⟩ := hcourse.exists_shape henough rfl
    rw [hshape.filterMap_eq]
    exact hshape.increasing

theorem increasing_iff (positions : List Nat) :
    increasing positions = true ↔ positions.Pairwise (· < ·) := by
  rw [← List.isChain_iff_pairwise]
  induction positions with
  | nil => simp [increasing]
  | cons first rest ih =>
      cases rest with
      | nil => simp [increasing]
      | cons second rest =>
          rw [List.isChain_cons_cons, ← ih, increasing, Bool.and_eq_true, decide_eq_true_eq]

theorem isSatisfied_iff (hincreasing : (matched.filterMap id).Pairwise (· < ·)) (count : Nat) :
    Matches.isSatisfied ⟨matched⟩ count = true ↔ matched.length = count ∧ none ∉ matched := by
  rw [Matches.isSatisfied, (increasing_iff _).mpr hincreasing]
  simp [Option.isSome_iff_ne_none, List.forall_mem_ne']

end SigOps.Multisig
