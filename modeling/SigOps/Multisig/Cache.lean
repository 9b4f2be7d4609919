import SigOps.Machine

namespace SigOps.Multisig

-- The digests that a multisig has computed so far. Each is requested once for all the signatures of
-- one hash type, while there is room.
structure DigestCache where
  entries : List (HashType × Digest)
  log : DigestLog

namespace DigestCache

-- As many as there are defined hash types.
def capacity : Nat := 6

-- A digest that finds no room is not kept.
def insert (hashType : HashType) (digest : Digest) (cache : DigestCache) : DigestCache :=
  if cache.entries.length < capacity then
    { cache with entries := cache.entries ++ [(hashType, digest)] }
  else cache

-- Every request names all the signatures.
def fetch (source : DigestSource) (signatures : List Bytes) (hashType : HashType) :
    EStateM ScriptError DigestCache Digest := fun cache =>
  match cache.entries.lookup hashType with
  | some digest => .ok digest cache
  | none =>
      match source.request hashType signatures cache.log with
      | .ok digest log => .ok digest ({ cache with log }.insert hashType digest)
      | .error fault log => .error fault { cache with log }

end DigestCache

end SigOps.Multisig
