import SigOps.Proofs.Script.Operations
import SigOps.Script.Deletion

namespace SigOps.Script

variable {pattern operation tail : Bytes} {hne : pattern ≠ []} {found : Nat} {kept : Bytes}

-- A pattern that is one operation is no longer and no shorter than another that starts with it.
theorem eq_of_isPrefixOf_append (hpattern : IsOperation pattern)
    (hoperation : IsOperation operation) {rest : Bytes}
    (hmatch : pattern.isPrefixOf (operation ++ rest)) : operation = pattern := by
  obtain ⟨after, hafter⟩ := List.isPrefixOf_iff_prefix.mp hmatch
  have hpatternSize := (opSize?_append pattern after).mpr hpattern
  have hoperationSize := (opSize?_append operation rest).mpr hoperation
  rw [hafter, hoperationSize, Option.some.injEq] at hpatternSize
  exact (List.append_inj hafter hpatternSize.symm).1.symm

theorem not_isPrefixOf_of_ended (hpattern : IsOperation pattern)
    (hended : opSize? tail = none) : ¬pattern.isPrefixOf tail := by
  intro hmatch
  obtain ⟨after, rfl⟩ := List.isPrefixOf_iff_prefix.mp hmatch
  rw [(opSize?_append pattern after).mpr hpattern] at hended
  cases hended

theorem deleteFrom_match (rest : Bytes) :
    deleteFrom pattern hne found kept (pattern ++ rest) =
      deleteFrom pattern hne (found + 1) kept rest := by
  have hmatch : pattern.isPrefixOf (pattern ++ rest) :=
    List.isPrefixOf_iff_prefix.mpr (List.prefix_append pattern rest)
  rw [deleteFrom, dif_pos hmatch, List.drop_left]

theorem deleteFrom_pass (hpattern : IsOperation pattern) (hoperation : IsOperation operation)
    (hother : operation ≠ pattern) (rest : Bytes) :
    deleteFrom pattern hne found kept (operation ++ rest) =
      deleteFrom pattern hne found (operation.reverse ++ kept) rest := by
  have hsize := (opSize?_append operation rest).mpr hoperation
  rw [deleteFrom, dif_neg (hother ∘ eq_of_isPrefixOf_append hpattern hoperation)]
  split
  · rename_i size hsome
    obtain rfl : operation.length = size := Option.some.inj (hsize.symm.trans hsome)
    rw [List.take_left, List.drop_left]
  · rename_i hnone
    rw [hsize] at hnone
    cases hnone

theorem deleteFrom_ended (hpattern : IsOperation pattern) (hended : opSize? tail = none) :
    deleteFrom pattern hne found kept tail = ⟨found, kept.reverse ++ tail⟩ := by
  rw [deleteFrom, dif_neg (not_isPrefixOf_of_ended hpattern hended)]
  split
  · rename_i size hsome
    rw [hended] at hsome
    cases hsome
  · rfl

theorem deleteFrom_toBytes (hpattern : IsOperation pattern) (parts : Parts) :
    deleteFrom pattern hne found kept parts.toBytes =
      ⟨found + parts.operations.count pattern,
        kept.reverse ++ (parts.keep (· != pattern)).toBytes⟩ := by
  induction parts using Parts.induction generalizing found kept with
  | ofTail tail hended =>
      rw [Parts.keep_ofTail, Parts.toBytes_ofTail]
      exact deleteFrom_ended hpattern hended
  | cons operation hoperation later ih =>
      rw [Parts.toBytes_cons]
      by_cases hsame : operation = pattern
      · subst hsame
        rw [deleteFrom_match, ih, Parts.keep_cons_of_neg _ (by simp), Parts.cons,
          List.count_cons_self, Nat.add_assoc, Nat.add_comm 1]
      · rw [deleteFrom_pass hpattern hoperation hsame, ih,
          Parts.keep_cons_of_pos _ (by simpa using hsame), Parts.toBytes_cons, Parts.cons,
          List.count_cons_of_ne hsame, List.reverse_append, List.reverse_reverse,
          List.append_assoc]

-- Deleting an operation is a filter on the operations. It never matches data inside of another one,
-- nor a part of what is cut short at the end.
theorem delete_toBytes (hpattern : IsOperation pattern) (parts : Parts) :
    delete pattern parts.toBytes =
      ⟨parts.operations.count pattern, (parts.keep (· != pattern)).toBytes⟩ := by
  have hne : pattern ≠ [] := by
    rintro rfl
    cases hpattern
  rw [delete, dif_neg hne, deleteFrom_toBytes hpattern, Nat.zero_add, List.reverse_nil,
    List.nil_append]

end SigOps.Script
