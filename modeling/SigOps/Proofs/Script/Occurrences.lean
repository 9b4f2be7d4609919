import SigOps.Proofs.Script.Operations
import SigOps.Script.Deletion

namespace SigOps.Script

-- The script from a place on, and what deleting the pattern makes of it. A match comes first, and
-- without one the operation is kept. Where there is no operation the rest is kept as it is.
inductive Removal (pattern : Bytes) : (script : Bytes) → Deletion → Prop where
  | occurrence {script left : Bytes} {found : Nat} (hmatch : pattern <+: script)
      (hlater : Removal pattern (script.drop pattern.length) ⟨found, left⟩) :
      Removal pattern script ⟨found + 1, left⟩
  | operation {script left : Bytes} {found size : Nat} (hother : ¬pattern <+: script)
      (hsize : opSize? script = some size)
      (hlater : Removal pattern (script.drop size) ⟨found, left⟩) :
      Removal pattern script ⟨found, script.take size ++ left⟩
  | ended {script : Bytes} (hother : ¬pattern <+: script) (hended : opSize? script = none) :
      Removal pattern script ⟨0, script⟩

variable {pattern script : Bytes} {removed other : Deletion}

theorem exists_removal (hne : pattern ≠ []) (found : Nat) (kept script : Bytes) :
    ∃ removed, Removal pattern script removed ∧ deleteFrom pattern hne found kept script =
      ⟨found + removed.found, kept.reverse ++ removed.script⟩ := by
  fun_induction deleteFrom pattern hne found kept script with
  | case1 found kept script hmatch ih =>
      obtain ⟨⟨count, left⟩, hlater, hdelete⟩ := ih
      refine ⟨_, .occurrence (List.isPrefixOf_iff_prefix.mp hmatch) hlater, ?_⟩
      rw [hdelete, Nat.add_assoc, Nat.add_comm 1]
  | case2 found kept script hother size hsize ih =>
      obtain ⟨⟨count, left⟩, hlater, hdelete⟩ := ih
      refine ⟨_, .operation (hother ∘ List.isPrefixOf_iff_prefix.mpr) hsize hlater, ?_⟩
      rw [hdelete, List.reverse_append, List.reverse_reverse, List.append_assoc]
  | case3 found kept script hother hended =>
      exact ⟨_, .ended (hother ∘ List.isPrefixOf_iff_prefix.mpr) hended, rfl⟩

theorem Removal.unique (hremoval : Removal pattern script removed)
    (hother : Removal pattern script other) : removed = other := by
  induction hremoval generalizing other with
  | occurrence hmatch _ ih =>
      cases hother with
      | occurrence _ hlater => cases ih hlater; rfl
      | operation hdiffers => exact absurd hmatch hdiffers
      | ended hdiffers => exact absurd hmatch hdiffers
  | operation hdiffers hsize _ ih =>
      cases hother with
      | occurrence hmatch => exact absurd hmatch hdiffers
      | operation _ hsame hlater =>
          cases hsize.symm.trans hsame
          cases ih hlater
          rfl
      | ended _ hended => cases hsize.symm.trans hended
  | ended hdiffers hended =>
      cases hother with
      | occurrence hmatch => exact absurd hmatch hdiffers
      | operation _ hsize => cases hsize.symm.trans hended
      | ended => rfl

theorem removal_delete (hne : pattern ≠ []) (script : Bytes) :
    Removal pattern script (delete pattern script) := by
  obtain ⟨removed, hremoval, hdelete⟩ := exists_removal hne 0 [] script
  rw [delete, dif_neg hne, hdelete, Nat.zero_add]
  exact hremoval

theorem delete_eq_iff (hne : pattern ≠ []) :
    delete pattern script = removed ↔ Removal pattern script removed := by
  constructor
  · rintro rfl
    exact removal_delete hne script
  · exact (removal_delete hne script).unique

-- No byte is lost but those of the occurrences.
theorem Removal.length_eq (hremoval : Removal pattern script removed) :
    script.length = removed.script.length + removed.found * pattern.length := by
  induction hremoval with
  | occurrence hmatch _ ih =>
      have hle := hmatch.length_le
      simp only [List.length_drop] at ih
      simp only [Nat.succ_mul]
      omega
  | operation _ hsize _ ih =>
      have hle := opSize?_le hsize
      simp only [List.length_drop] at ih
      simp only [List.length_append, List.length_take_of_le hle]
      omega
  | ended => simp

-- The bytes that are left keep their order.
theorem Removal.sublist (hremoval : Removal pattern script removed) :
    removed.script.Sublist script := by
  induction hremoval with
  | occurrence _ _ ih => exact ih.trans (List.drop_sublist _ _)
  | @operation script left _ size _ _ _ ih =>
      have hkept := ih.append_left (script.take size)
      rwa [List.take_append_drop] at hkept
  | ended => exact List.Sublist.refl _

theorem Removal.script_eq_iff (hne : pattern ≠ []) (hremoval : Removal pattern script removed) :
    removed.script = script ↔ removed.found = 0 := by
  have hlength := hremoval.length_eq
  constructor
  · intro hsame
    rw [hsame, Nat.left_eq_add, Nat.mul_eq_zero] at hlength
    exact hlength.resolve_right (List.length_eq_zero_iff.not.mpr hne)
  · intro hnone
    rw [hnone, Nat.zero_mul] at hlength
    exact hremoval.sublist.eq_of_length hlength.symm

section Loop

-- The bytes from one position up to another, if these are in order and within the bytes.
def slice? (bytes : Bytes) (start stop : Nat) : Option Bytes :=
  if start ≤ stop ∧ stop ≤ bytes.length then some ((bytes.take stop).drop start) else none

-- Before it looks for the pattern, the loop copies what it passed over in its last round.
inductive Phase where
  | copying
  | matching

-- The bytes from `keptFrom` up to the position are not copied yet.
structure Cursors where
  phase : Phase
  found : Nat
  copied : Bytes
  keptFrom : Nat
  position : Nat

def Cursors.start : Cursors :=
  { phase := .copying, found := 0, copied := [], keptFrom := 0, position := 0 }

-- What one turn comes to. A slip is a slice that is out of bounds.
inductive Turn where
  | slip
  | next (cursors : Cursors)
  | done (removed : Deletion)

-- The script is replaced only if something was found.
def Cursors.finish (script : Bytes) (cursors : Cursors) : Turn :=
  if 0 < cursors.found then
    match slice? script cursors.keptFrom script.length with
    | some tail => .done ⟨cursors.found, cursors.copied ++ tail⟩
    | none => .slip
  else .done ⟨cursors.found, script⟩

def Cursors.turn (pattern script : Bytes) (cursors : Cursors) : Turn :=
  match cursors.phase with
  | .copying =>
      match slice? script cursors.keptFrom cursors.position with
      | some kept => .next { cursors with phase := .matching, copied := cursors.copied ++ kept }
      | none => .slip
  | .matching =>
      match slice? script cursors.position script.length with
      | some rest =>
          if pattern <+: rest then
            .next { cursors with
              found := cursors.found + 1
              position := cursors.position + pattern.length }
          else
            match opSize? rest with
            | some size =>
                .next { cursors with
                  phase := .copying
                  keptFrom := cursors.position
                  position := cursors.position + size }
            | none => { cursors with keptFrom := cursors.position }.finish script
      | none => .slip

-- The loop ends with this result after some turns, none of which slips.
inductive Ends (pattern script : Bytes) : Cursors → Deletion → Prop where
  | done {cursors : Cursors} {removed : Deletion}
      (hturn : cursors.turn pattern script = .done removed) : Ends pattern script cursors removed
  | next {cursors later : Cursors} {removed : Deletion}
      (hturn : cursors.turn pattern script = .next later)
      (hlater : Ends pattern script later removed) : Ends pattern script cursors removed

variable {found keptFrom position : Nat} {copied : Bytes}

theorem slice?_to_end (hposition : position ≤ script.length) :
    slice? script position script.length = some (script.drop position) := by
  rw [slice?, if_pos ⟨hposition, Nat.le_refl _⟩, List.take_length]

theorem slice?_add {size : Nat} (hsize : position + size ≤ script.length) :
    slice? script position (position + size) = some ((script.drop position).take size) := by
  rw [slice?, if_pos ⟨Nat.le_add_right _ _, hsize⟩, List.drop_take, Nat.add_sub_cancel_left]

theorem turn_matching (hposition : position ≤ script.length) :
    Cursors.turn pattern script ⟨.matching, found, copied, keptFrom, position⟩ =
      if pattern <+: script.drop position then
        .next ⟨.matching, found + 1, copied, keptFrom, position + pattern.length⟩
      else
        match opSize? (script.drop position) with
        | some size => .next ⟨.copying, found, copied, position, position + size⟩
        | none => .done ⟨found, if 0 < found then copied ++ script.drop position else script⟩ := by
  simp only [Cursors.turn, slice?_to_end hposition, Cursors.finish]
  split_ifs <;> rfl

theorem turn_copying {size : Nat} (hsize : position + size ≤ script.length) :
    Cursors.turn pattern script ⟨.copying, found, copied, position, position + size⟩ =
      .next ⟨.matching, found, copied ++ (script.drop position).take size, position,
        position + size⟩ := by
  simp only [Cursors.turn, slice?_add hsize]

-- The invariant: what is copied is what is left of the bytes before the position. While nothing was
-- found these are the same.
theorem ends_of_removal {rest : Bytes} (hremoval : Removal pattern rest removed)
    (hrest : script.drop position = rest) (hposition : position ≤ script.length)
    (hcopied : found = 0 → copied = script.take position) (keptFrom : Nat) :
    Ends pattern script ⟨.matching, found, copied, keptFrom, position⟩
      ⟨found + removed.found, copied ++ removed.script⟩ := by
  induction hremoval generalizing found copied keptFrom position with
  | @occurrence rest left count hmatch _ ih =>
      subst hrest
      have hle := hmatch.length_le
      rw [List.length_drop] at hle
      have hlater : Ends pattern script
          ⟨.matching, found + 1, copied, keptFrom, position + pattern.length⟩
          ⟨found + 1 + count, copied ++ left⟩ :=
        ih List.drop_drop.symm (by omega) (by simp) keptFrom
      rw [Nat.add_assoc, Nat.add_comm 1] at hlater
      refine .next ?_ hlater
      rw [turn_matching hposition, if_pos hmatch]
  | @operation rest left count size hother hsize _ ih =>
      subst hrest
      have hle := opSize?_le hsize
      rw [List.length_drop] at hle
      have hnext : position + size ≤ script.length := by omega
      have hlater : Ends pattern script
          ⟨.matching, found, copied ++ (script.drop position).take size, position, position + size⟩
          ⟨found + count, copied ++ (script.drop position).take size ++ left⟩ :=
        ih List.drop_drop.symm hnext (fun hnone => by rw [hcopied hnone, List.take_add]) position
      rw [List.append_assoc] at hlater
      refine .next ?_ (.next (turn_copying hnext) hlater)
      simp only [turn_matching hposition, if_neg hother, hsize]
  | @ended rest hother hended =>
      subst hrest
      refine .done ?_
      simp only [turn_matching hposition, if_neg hother, hended, Nat.add_zero]
      by_cases hfound : 0 < found
      · rw [if_pos hfound]
      · rw [if_neg hfound, hcopied (Nat.eq_zero_of_not_pos hfound), List.take_append_drop]

theorem ends_delete (hne : pattern ≠ []) (script : Bytes) :
    Ends pattern script .start (delete pattern script) := by
  have hstart : Cursors.turn pattern script .start = .next ⟨.matching, 0, [], 0, 0⟩ := by
    simp [Cursors.turn, Cursors.start, slice?]
  have hmatching : Ends pattern script ⟨.matching, 0, [], 0, 0⟩
      ⟨0 + (delete pattern script).found, [] ++ (delete pattern script).script⟩ :=
    ends_of_removal (removal_delete hne script) rfl (Nat.zero_le _) (fun _ => rfl) 0
  rw [Nat.zero_add, List.nil_append] at hmatching
  exact .next hstart hmatching

end Loop

-- Deleting a pattern takes out the occurrences that the scan meets and nothing else. The loop in
-- place does the same without a slip.
theorem delete_takes_occurrences :
    (∀ pattern script : Bytes, pattern ≠ [] →
      Ends pattern script .start (delete pattern script) ∧
      (∀ removed, delete pattern script = removed ↔ Removal pattern script removed) ∧
      script.length =
        (delete pattern script).script.length + (delete pattern script).found * pattern.length ∧
      (delete pattern script).script.Sublist script ∧
      ((delete pattern script).script = script ↔ (delete pattern script).found = 0)) ∧
    ∀ script, delete [] script = ⟨0, script⟩ := by
  constructor
  · intro pattern script hne
    have hremoval := removal_delete hne script
    exact ⟨ends_delete hne script, fun _ => delete_eq_iff hne, hremoval.length_eq,
      hremoval.sublist, hremoval.script_eq_iff hne⟩
  · intro script
    rw [delete, dif_pos rfl]

-- A push that is cut short occurs twice. The byte after it, once data, is then an operation.
theorem delete_takes_occurrences_truncated :
    ([0x02, 0xab] : Bytes) ≠ [] ∧
      delete [0x02, 0xab] [0x02, 0xab, 0x02, 0xab, 0xcd, 0xac] = ⟨2, [0xcd, 0xac]⟩ ∧
      Ends [0x02, 0xab] [0x02, 0xab, 0x02, 0xab, 0xcd, 0xac] .start ⟨2, [0xcd, 0xac]⟩ := by
  have hne : ([0x02, 0xab] : Bytes) ≠ [] := by decide
  obtain ⟨hends, hdelete, -⟩ :=
    delete_takes_occurrences.1 [0x02, 0xab] [0x02, 0xab, 0x02, 0xab, 0xcd, 0xac] hne
  have hfirst : opSize? [0xcd, 0xac] = some 1 := rfl
  have hsecond : opSize? [0xac] = some 1 := rfl
  have hremoved := (hdelete ⟨2, [0xcd, 0xac]⟩).mpr
    (.occurrence (by decide) (.occurrence (by decide)
      (.operation (by decide) hfirst (.operation (by decide) hsecond (.ended (by decide) rfl)))))
  rw [hremoved] at hends
  exact ⟨hne, hremoved, hends⟩

end SigOps.Script
