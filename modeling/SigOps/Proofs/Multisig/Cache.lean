import SigOps.Multisig.Cache
import SigOps.Proofs.Basic
import SigOps.Proofs.Bytes

namespace SigOps.Multisig

-- The hash types in a cache after these were looked up.
def cached (hashTypes : List HashType) : List HashType :=
  hashTypes.eraseDups.take DigestCache.capacity

theorem mem_of_mem_cached {hashTypes : List HashType} {hashType : HashType}
    (hmem : hashType ∈ cached hashTypes) : hashType ∈ hashTypes :=
  List.mem_eraseDups.mp (List.mem_of_mem_take hmem)

theorem cached_concat_of_mem {hashTypes : List HashType} {hashType : HashType}
    (hmem : hashType ∈ cached hashTypes) : cached (hashTypes ++ [hashType]) = cached hashTypes := by
  rw [cached, eraseDups_concat_of_mem (mem_of_mem_cached hmem), cached]

theorem cached_of_room {hashTypes : List HashType}
    (hroom : (cached hashTypes).length < DigestCache.capacity) :
    cached hashTypes = hashTypes.eraseDups := by
  rw [cached, List.length_take] at hroom
  exact List.take_of_length_le (by omega)

theorem cached_concat_of_room {hashTypes : List HashType} {hashType : HashType}
    (hnot : hashType ∉ cached hashTypes)
    (hroom : (cached hashTypes).length < DigestCache.capacity) :
    cached (hashTypes ++ [hashType]) = cached hashTypes ++ [hashType] := by
  have hall := cached_of_room hroom
  rw [hall] at hnot hroom ⊢
  rw [List.mem_eraseDups] at hnot
  rw [cached, eraseDups_concat_of_not_mem hnot]
  exact List.take_of_length_le (by rw [List.length_append]; exact hroom)

theorem cached_concat_of_full {hashTypes : List HashType} (hashType : HashType)
    (hfull : DigestCache.capacity ≤ (cached hashTypes).length) :
    cached (hashTypes ++ [hashType]) = cached hashTypes := by
  rw [cached, List.length_take] at hfull
  rw [cached, List.eraseDups_append, List.take_append_of_le_length (by omega), cached]

theorem lookup_eq_none_iff {entries : List (HashType × Digest)} {hashType : HashType} :
    entries.lookup hashType = none ↔ hashType ∉ entries.map Prod.fst := by
  rw [List.lookup_eq_none_iff, List.mem_map]
  simp only [bne_iff_ne, ne_eq]
  constructor
  · rintro hnone ⟨entry, hentry, rfl⟩
    exact hnone entry hentry rfl
  · rintro hnot entry hentry rfl
    exact hnot ⟨entry, hentry, rfl⟩

theorem map_fst_insert {hashTypes : List HashType} {hashType : HashType} {cache : DigestCache}
    (hentries : cache.entries.map Prod.fst = cached hashTypes)
    (hnot : hashType ∉ cached hashTypes) (digest : Digest) :
    (cache.insert hashType digest).entries.map Prod.fst = cached (hashTypes ++ [hashType]) := by
  have hlength : cache.entries.length = (cached hashTypes).length := by
    rw [← hentries, List.length_map]
  unfold DigestCache.insert
  split
  · rename_i hroom
    rw [hlength] at hroom
    rw [cached_concat_of_room hnot hroom, ← hentries, List.map_append]
    rfl
  · rename_i hfull
    rw [hlength, Nat.not_lt] at hfull
    rw [cached_concat_of_full hashType hfull, hentries]

theorem log_insert (cache : DigestCache) (hashType : HashType) (digest : Digest) :
    (cache.insert hashType digest).log = cache.log := by
  unfold DigestCache.insert
  split
  · rfl
  · rfl

-- The hash types that are not in the cache when they are looked up.
def uncachedAfter (before : List HashType) : List HashType → List HashType
  | [] => []
  | hashType :: later =>
      let uncachedLater := uncachedAfter (before ++ [hashType]) later
      if hashType ∈ cached before then uncachedLater else hashType :: uncachedLater

def uncached (hashTypes : List HashType) : List HashType := uncachedAfter [] hashTypes

-- The seventh is requested each time, the first is kept.
example : uncached ([0, 1, 2, 3, 4, 5, 6, 6, 0].map HashType.mk) =
    [0, 1, 2, 3, 4, 5, 6, 6].map HashType.mk := by
  decide

theorem uncachedAfter_concat (before hashTypes : List HashType) (hashType : HashType) :
    uncachedAfter before (hashTypes ++ [hashType]) = uncachedAfter before hashTypes ++
      if hashType ∈ cached (before ++ hashTypes) then [] else [hashType] := by
  induction hashTypes generalizing before with
  | nil => simp [uncachedAfter]
  | cons first rest ih =>
      simp only [List.cons_append, uncachedAfter, ih, List.append_assoc, List.nil_append]
      split
      · rfl
      · rw [List.cons_append]

theorem uncached_concat_of_mem {hashTypes : List HashType} {hashType : HashType}
    (hmem : hashType ∈ cached hashTypes) :
    uncached (hashTypes ++ [hashType]) = uncached hashTypes := by
  rw [uncached, uncachedAfter_concat, List.nil_append, if_pos hmem, List.append_nil, uncached]

theorem uncached_concat_of_not_mem {hashTypes : List HashType} {hashType : HashType}
    (hnot : hashType ∉ cached hashTypes) :
    uncached (hashTypes ++ [hashType]) = uncached hashTypes ++ [hashType] := by
  rw [uncached, uncachedAfter_concat, List.nil_append, if_neg hnot, uncached]

-- Nothing is requested twice while there is room for all.
theorem uncached_of_length_le {hashTypes : List HashType}
    (hroom : hashTypes.eraseDups.length ≤ DigestCache.capacity) :
    uncached hashTypes = hashTypes.eraseDups := by
  induction hashTypes using List.reverseRecOn with
  | nil => rfl
  | append_singleton hashTypes hashType ih =>
      have hfewer : hashTypes.eraseDups.length ≤ DigestCache.capacity := by
        rw [List.eraseDups_append, List.length_append] at hroom
        omega
      have hcached : cached hashTypes = hashTypes.eraseDups := List.take_of_length_le hfewer
      by_cases hmem : hashType ∈ cached hashTypes
      · rw [uncached_concat_of_mem hmem, ih hfewer,
          eraseDups_concat_of_mem (mem_of_mem_cached hmem)]
      · have hnot : hashType ∉ hashTypes := by rwa [hcached, List.mem_eraseDups] at hmem
        rw [uncached_concat_of_not_mem hmem, ih hfewer, eraseDups_concat_of_not_mem hnot]

def definedHashTypes : List HashType :=
  [0x01, 0x02, 0x03, 0x81, 0x82, 0x83].map HashType.mk

theorem mem_definedHashTypes {hashType : HashType} (hdefined : hashType.isDefined = true) :
    hashType ∈ definedHashTypes := by
  obtain ⟨byte⟩ := hashType
  revert byte
  apply Bytes.forall_byte
  decide +kernel

-- All defined hash types have room, so that none of them is looked up in vain twice.
theorem uncached_of_defined {hashTypes : List HashType}
    (hdefined : ∀ hashType ∈ hashTypes, hashType.isDefined = true) :
    uncached hashTypes = hashTypes.eraseDups ∧
      hashTypes.eraseDups.length ≤ DigestCache.capacity := by
  have hsubset : hashTypes.eraseDups ⊆ definedHashTypes := fun hashType hmem =>
    mem_definedHashTypes (hdefined hashType (List.mem_eraseDups.mp hmem))
  have hroom := ((nodup_eraseDups hashTypes).subperm hsubset).length_le
  exact ⟨uncached_of_length_le hroom, hroom⟩

end SigOps.Multisig
