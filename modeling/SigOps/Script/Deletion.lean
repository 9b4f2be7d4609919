import SigOps.Script.Operation

namespace SigOps.Script

structure Deletion where
  found : Nat
  script : Bytes
deriving DecidableEq

-- `kept` holds the operations passed so far, last byte first.
def deleteFrom (pattern : Bytes) (hpattern : pattern ≠ []) (found : Nat) (kept script : Bytes) :
    Deletion :=
  if hmatch : pattern.isPrefixOf script then
    deleteFrom pattern hpattern (found + 1) kept (script.drop pattern.length)
  else
    match _hsize : opSize? script with
    | some size => deleteFrom pattern hpattern found ((script.take size).reverse ++ kept)
        (script.drop size)
    | none => ⟨found, kept.reverse ++ script⟩
termination_by script.length
decreasing_by
  · have hpos := List.length_pos_iff.mpr hpattern
    have hle := (List.isPrefixOf_iff_prefix.mp hmatch).length_le
    simp only [List.length_drop]
    omega
  · have hpos := opSize?_pos _hsize
    simp only [List.length_drop]
    omega

-- Removes a pattern wherever it starts at a boundary between operations. It may be any bytes, also
-- several operations or a part of one. An empty pattern occurs nowhere.
def delete (pattern script : Bytes) : Deletion :=
  if hpattern : pattern = [] then ⟨0, script⟩ else deleteFrom pattern hpattern 0 [] script

end SigOps.Script
