import SigOps.Bytes

namespace SigOps.Sha256

-- Cube roots of the first 64 primes, the first 32 bits of each fraction.
def roundConstants : List UInt32 :=
  [0x428a2f98, 0x71374491, 0xb5c0fbcf, 0xe9b5dba5, 0x3956c25b, 0x59f111f1, 0x923f82a4, 0xab1c5ed5,
    0xd807aa98, 0x12835b01, 0x243185be, 0x550c7dc3, 0x72be5d74, 0x80deb1fe, 0x9bdc06a7, 0xc19bf174,
    0xe49b69c1, 0xefbe4786, 0x0fc19dc6, 0x240ca1cc, 0x2de92c6f, 0x4a7484aa, 0x5cb0a9dc, 0x76f988da,
    0x983e5152, 0xa831c66d, 0xb00327c8, 0xbf597fc7, 0xc6e00bf3, 0xd5a79147, 0x06ca6351, 0x14292967,
    0x27b70a85, 0x2e1b2138, 0x4d2c6dfc, 0x53380d13, 0x650a7354, 0x766a0abb, 0x81c2c92e, 0x92722c85,
    0xa2bfe8a1, 0xa81a664b, 0xc24b8b70, 0xc76c51a3, 0xd192e819, 0xd6990624, 0xf40e3585, 0x106aa070,
    0x19a4c116, 0x1e376c08, 0x2748774c, 0x34b0bcb5, 0x391c0cb3, 0x4ed8aa4a, 0x5b9cca4f, 0x682e6ff3,
    0x748f82ee, 0x78a5636f, 0x84c87814, 0x8cc70208, 0x90befffa, 0xa4506ceb, 0xbef9a3f7, 0xc67178f2]

structure State where
  a : UInt32
  b : UInt32
  c : UInt32
  d : UInt32
  e : UInt32
  f : UInt32
  g : UInt32
  h : UInt32

-- Square roots of the first eight primes, the first 32 bits of each fraction.
def initial : State :=
  ⟨0x6a09e667, 0xbb67ae85, 0x3c6ef372, 0xa54ff53a, 0x510e527f, 0x9b05688c, 0x1f83d9ab, 0x5be0cd19⟩

def rotate (word count : UInt32) : UInt32 := word >>> count ||| word <<< (32 - count)

def expandLow (word : UInt32) : UInt32 := rotate word 7 ^^^ rotate word 18 ^^^ word >>> 3

def expandHigh (word : UInt32) : UInt32 := rotate word 17 ^^^ rotate word 19 ^^^ word >>> 10

-- The word that follows a window of sixteen.
def nextWord (window : List UInt32) : UInt32 :=
  expandHigh (window.getD 14 0) + window.getD 9 0 + expandLow (window.getD 1 0) + window.getD 0 0

-- The words that each round takes from a sliding window.
def schedule : (rounds : Nat) → (window : List UInt32) → List UInt32
  | 0, _ => []
  | rounds + 1, window =>
      window.getD 0 0 :: schedule rounds (window.tail ++ [nextWord window])

def round (state : State) (input : UInt32 × UInt32) : State :=
  let mixed := rotate state.e 6 ^^^ rotate state.e 11 ^^^ rotate state.e 25
  let choice := (state.e &&& state.f) ^^^ (~~~state.e &&& state.g)
  let first := state.h + mixed + choice + input.1 + input.2
  let blended := rotate state.a 2 ^^^ rotate state.a 13 ^^^ rotate state.a 22
  let majority := (state.a &&& state.b) ^^^ (state.a &&& state.c) ^^^ (state.b &&& state.c)
  ⟨first + (blended + majority), state.a, state.b, state.c,
    state.d + first, state.e, state.f, state.g⟩

def compress (state : State) (block : List UInt32) : State :=
  let final := (roundConstants.zip (schedule 64 block)).foldl round state
  ⟨state.a + final.a, state.b + final.b, state.c + final.c, state.d + final.d,
    state.e + final.e, state.f + final.f, state.g + final.g, state.h + final.h⟩

-- A set bit, zeros up to eight bytes before the end of a block, and the length in bits.
def pad (message : Bytes) : Bytes :=
  let zeros := (119 - message.length % 64) % 64
  message ++ 0x80 :: List.replicate zeros 0 ++ Bytes.fixedBE 8 (8 * message.length)

-- The first `count` words, most significant byte first.
def words : (count : Nat) → Bytes → List UInt32
  | 0, _ => []
  | count + 1, bytes =>
      UInt32.ofNat (Bytes.toNatBE (bytes.take 4)) :: words count (bytes.drop 4)

-- The state after the first `count` blocks.
def absorb : (count : Nat) → State → Bytes → State
  | 0, state, _ => state
  | count + 1, state, bytes => absorb count (compress state (words 16 bytes)) (bytes.drop 64)

def State.toBytes (state : State) : Bytes :=
  [state.a, state.b, state.c, state.d, state.e, state.f, state.g, state.h].flatMap fun word =>
    Bytes.fixedBE 4 word.toNat

def hash (message : Bytes) : Bytes :=
  let padded := pad message
  (absorb (padded.length / 64) initial padded).toBytes

def doubleHash (message : Bytes) : Bytes := hash (hash message)

end SigOps.Sha256
