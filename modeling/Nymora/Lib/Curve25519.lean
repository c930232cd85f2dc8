import Nymora.Lib.Bytes

-- X25519: the Montgomery ladder on u-coordinates modulo `2 ^ 255 - 19`.
namespace Curve25519

def modulus : Nat := 2 ^ 255 - 19

def sub (left right : Nat) : Nat := (left + (modulus - right)) % modulus

def mul (left right : Nat) : Nat := left * right % modulus

-- The power by the exponent's low `bits` bits, from the top.
def pow (base exponent : Nat) : Nat → Nat
  | 0 => 1
  | bits + 1 =>
      let half := pow base (exponent / 2) bits
      let square := mul half half
      if exponent % 2 = 1 then mul square base else square

def inverse (value : Nat) : Nat := pow value (modulus - 2) 255

-- Two projective u-coordinates whose points differ by the ladder's base point.
structure Ladder where
  x2 : Nat
  z2 : Nat
  x3 : Nat
  z3 : Nat

def Ladder.swap (ladder : Ladder) : Ladder :=
  { x2 := ladder.x3, z2 := ladder.z3, x3 := ladder.x2, z3 := ladder.z2 }

-- Doubles the first point and adds the second to it.
def Ladder.step (u : Nat) (ladder : Ladder) : Ladder :=
  let a := (ladder.x2 + ladder.z2) % modulus
  let b := sub ladder.x2 ladder.z2
  let aa := mul a a
  let bb := mul b b
  let e := sub aa bb
  let da := mul (sub ladder.x3 ladder.z3) a
  let cb := mul ((ladder.x3 + ladder.z3) % modulus) b
  let sum := (da + cb) % modulus
  let difference := sub da cb
  { x2 := mul aa bb
    z2 := mul e ((aa + mul 121665 e) % modulus)
    x3 := mul sum sum
    z3 := mul u (mul difference difference) }

-- The ladder over the scalar's low `bits` bits, from the top.
def climb (u scalar : Nat) : Nat → Ladder
  | 0 => { x2 := 1, z2 := 0, x3 := u, z3 := 1 }
  | bits + 1 =>
      let above := climb u (scalar / 2) bits
      if scalar % 2 = 1 then (above.swap.step u).swap else above.step u

def clamp (scalar : Bytes 32) : Nat := scalar.toNatLe / 8 * 8 % 2 ^ 254 + 2 ^ 254

def diffieHellman (secret point : Bytes 32) : Bytes 32 :=
  let u := point.toNatLe % 2 ^ 255 % modulus
  let reached := climb u (clamp secret) 255
  Bytes.ofNatLe 32 (mul reached.x2 (inverse reached.z2))

def basePoint : Bytes 32 := Bytes.ofNatLe 32 9

def publicKey (secret : Bytes 32) : Bytes 32 := diffieHellman secret basePoint

-- A small-order point brings every scalar to zero.
def contributory (shared : Bytes 32) : Bool := decide (shared ≠ Bytes.zero 32)

end Curve25519
