import Nymora.Lib.Bytes

-- SHA-256, and HMAC and HKDF over it. Words are numbers below `2 ^ 32`; a block is the number its
-- sixteen words name, the first word at the top.
namespace Sha256

open Nat (land lor)

def add (left right : Nat) : Nat := Nat.mod (Nat.add left right) 0x100000000

def rotateRight (word count : Nat) : Nat :=
  Nat.mod (Nat.shiftRight (Nat.mul word 0x100000001) count) 0x100000000

def roundConstants : List Nat := [
  0x428a2f98, 0x71374491, 0xb5c0fbcf, 0xe9b5dba5, 0x3956c25b, 0x59f111f1, 0x923f82a4, 0xab1c5ed5,
  0xd807aa98, 0x12835b01, 0x243185be, 0x550c7dc3, 0x72be5d74, 0x80deb1fe, 0x9bdc06a7, 0xc19bf174,
  0xe49b69c1, 0xefbe4786, 0x0fc19dc6, 0x240ca1cc, 0x2de92c6f, 0x4a7484aa, 0x5cb0a9dc, 0x76f988da,
  0x983e5152, 0xa831c66d, 0xb00327c8, 0xbf597fc7, 0xc6e00bf3, 0xd5a79147, 0x06ca6351, 0x14292967,
  0x27b70a85, 0x2e1b2138, 0x4d2c6dfc, 0x53380d13, 0x650a7354, 0x766a0abb, 0x81c2c92e, 0x92722c85,
  0xa2bfe8a1, 0xa81a664b, 0xc24b8b70, 0xc76c51a3, 0xd192e819, 0xd6990624, 0xf40e3585, 0x106aa070,
  0x19a4c116, 0x1e376c08, 0x2748774c, 0x34b0bcb5, 0x391c0cb3, 0x4ed8aa4a, 0x5b9cca4f, 0x682e6ff3,
  0x748f82ee, 0x78a5636f, 0x84c87814, 0x8cc70208, 0x90befffa, 0xa4506ceb, 0xbef9a3f7, 0xc67178f2]

-- The eight working words.
structure State where
  a : Nat
  b : Nat
  c : Nat
  d : Nat
  e : Nat
  f : Nat
  g : Nat
  h : Nat

def initial : State where
  a := 0x6a09e667
  b := 0xbb67ae85
  c := 0x3c6ef372
  d := 0xa54ff53a
  e := 0x510e527f
  f := 0x9b05688c
  g := 0x1f83d9ab
  h := 0x5be0cd19

def round : State → Nat × Nat → State
  | ⟨a, b, c, d, e, f, g, h⟩, (word, constant) =>
      let sum := Nat.xor (rotateRight e 6) (Nat.xor (rotateRight e 11) (rotateRight e 25))
      let choice := Nat.xor g (land e (Nat.xor f g))
      let first := add (add h sum) (add choice (add word constant))
      let spread := Nat.xor (rotateRight a 2) (Nat.xor (rotateRight a 13) (rotateRight a 22))
      let majority := lor (land a b) (land c (lor a b))
      ⟨add first (add spread majority), a, b, c, add d first, e, f, g⟩

-- The word `index` places from the end of a window of sixteen.
def wordAt (window index : Nat) : Nat :=
  Nat.mod (Nat.shiftRight window (Nat.mul 32 index)) 0x100000000

-- The first `count` words of the message schedule that a window opens.
def schedule : Nat → Nat → List Nat
  | 0, _ => []
  | count + 1, window =>
      let early := wordAt window 14
      let late := wordAt window 1
      let low := Nat.xor (rotateRight early 7) (Nat.xor (rotateRight early 18) (Nat.shiftRight early 3))
      let high := Nat.xor (rotateRight late 17) (Nat.xor (rotateRight late 19) (Nat.shiftRight late 10))
      let mixed := add (add (wordAt window 15) low) (add (wordAt window 6) high)
      wordAt window 15 :: schedule count
        (Nat.mod (Nat.add (Nat.shiftLeft window 32) mixed) (Nat.pow 2 512))

def compress (state : State) (block : Nat) : State :=
  let mixed := ((schedule 64 block).zip roundConstants).foldl round state
  { a := add state.a mixed.a
    b := add state.b mixed.b
    c := add state.c mixed.c
    d := add state.d mixed.d
    e := add state.e mixed.e
    f := add state.f mixed.f
    g := add state.g mixed.g
    h := add state.h mixed.h }

def toNatBe (bytes : List UInt8) : Nat := bytes.foldl (fun value byte => value * 256 + byte.toNat) 0

-- The padded message as 512-bit blocks: a one bit, zeros, and the length in bits.
def blocks (message : List UInt8) : List Nat :=
  let bits := 8 * message.length
  let count := (message.length + 8) / 64 + 1
  let padded := (toNatBe message * 2 + 1) * 2 ^ (512 * count - bits - 1) + bits % 2 ^ 64
  (List.range count).map fun block => padded / 2 ^ (512 * (count - 1 - block)) % 2 ^ 512

def hash (message : List UInt8) : Bytes 32 :=
  let final := (blocks message).foldl compress initial
  let value := [final.a, final.b, final.c, final.d, final.e, final.f, final.g, final.h].foldl
    (fun value word => value * 2 ^ 32 + word) 0
  (Bytes.ofNatLe 32 value).reverse

def hmac (key message : List UInt8) : Bytes 32 :=
  let short := if key.length ≤ 64 then key else (hash key).toList
  let filled := short ++ List.replicate (64 - short.length) 0
  let inner := hash (filled.map (· ^^^ 0x36) ++ message)
  hash (filled.map (· ^^^ 0x5c) ++ inner.toList)

-- HKDF without salt, to one block of output.
def hkdf (keying info : List UInt8) : Bytes 32 :=
  hmac (hmac (List.replicate 32 0) keying).toList (info ++ [1])

example : (hash [0x61, 0x62, 0x63]).toNatLe =
    0xad1500f261ff10b49c7a1796a36103b02322ae5dde404141eacf018fbf1678ba := by decide +kernel

end Sha256
