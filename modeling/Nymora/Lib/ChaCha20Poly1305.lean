import Nymora.Lib.Bytes

-- ChaCha20-Poly1305 under the zero nonce, words as numbers below `2 ^ 32`.
namespace ChaCha20Poly1305

def rotateLeft (word count : Nat) : Nat :=
  (word * (2 ^ 32 + 1) / 2 ^ (32 - count)) % 2 ^ 32

def quarterRound (a b c d : Nat) : Nat × Nat × Nat × Nat :=
  let a := (a + b) % 2 ^ 32
  let d := rotateLeft (d ^^^ a) 16
  let c := (c + d) % 2 ^ 32
  let b := rotateLeft (b ^^^ c) 12
  let a := (a + b) % 2 ^ 32
  let d := rotateLeft (d ^^^ a) 8
  let c := (c + d) % 2 ^ 32
  (a, rotateLeft (b ^^^ c) 7, c, d)

-- A column round, then a diagonal round.
def doubleRound : List Nat → List Nat
  | [x0, x1, x2, x3, x4, x5, x6, x7, x8, x9, x10, x11, x12, x13, x14, x15] =>
      let (x0, x4, x8, x12) := quarterRound x0 x4 x8 x12
      let (x1, x5, x9, x13) := quarterRound x1 x5 x9 x13
      let (x2, x6, x10, x14) := quarterRound x2 x6 x10 x14
      let (x3, x7, x11, x15) := quarterRound x3 x7 x11 x15
      let (x0, x5, x10, x15) := quarterRound x0 x5 x10 x15
      let (x1, x6, x11, x12) := quarterRound x1 x6 x11 x12
      let (x2, x7, x8, x13) := quarterRound x2 x7 x8 x13
      let (x3, x4, x9, x14) := quarterRound x3 x4 x9 x14
      [x0, x1, x2, x3, x4, x5, x6, x7, x8, x9, x10, x11, x12, x13, x14, x15]
  | words => words

def doubleRounds : Nat → List Nat → List Nat
  | 0, words => words
  | count + 1, words => doubleRounds count (doubleRound words)

-- The consecutive little-endian words of a byte string.
def wordsOf (bytes : List UInt8) : List Nat :=
  (List.range (bytes.length / 4)).map fun index =>
    LittleEndian.toNat ((bytes.drop (4 * index)).take 4)

def block (key : Bytes 32) (counter : Nat) : List UInt8 :=
  let opening := [0x61707865, 0x3320646e, 0x79622d32, 0x6b206574] ++ wordsOf key.toList ++
    [counter % 2 ^ 32, 0, 0, 0]
  let mixed := doubleRounds 10 opening
  (List.zipWith (· + ·) opening mixed).flatMap fun word => LittleEndian.ofNat 4 word

-- As many keystream bytes as a message has, from block 1 on.
def keystream (key : Bytes 32) (length : Nat) : List UInt8 :=
  let blocks := (List.range ((length + 63) / 64)).flatMap fun index => block key (index + 1)
  (blocks ++ List.replicate length 0).take length

def cipher (key : Bytes 32) (buffer : List UInt8) : List UInt8 :=
  List.zipWith (· ^^^ ·) buffer (keystream key buffer.length)

def poly1305Modulus : Nat := 2 ^ 130 - 5

-- The accumulator after the message's first `count` sixteen-byte blocks.
def accumulate (multiplier : Nat) (message : List UInt8) : Nat → Nat
  | 0 => 0
  | count + 1 =>
      let bytes := (message.drop (16 * count)).take 16
      let value := LittleEndian.toNat bytes + 256 ^ bytes.length
      (accumulate multiplier message count + value) * multiplier % poly1305Modulus

def padded (bytes : List UInt8) : List UInt8 :=
  bytes ++ List.replicate ((16 - bytes.length % 16) % 16) 0

def authenticate (key : Bytes 32) (associated sealed : List UInt8) : Bytes 16 :=
  let oneTime := block key 0
  let multiplier := LittleEndian.toNat (oneTime.take 16) &&& 0x0ffffffc0ffffffc0ffffffc0fffffff
  let message := padded associated ++ padded sealed ++ LittleEndian.ofNat 8 associated.length ++
    LittleEndian.ofNat 8 sealed.length
  let value := accumulate multiplier message ((message.length + 15) / 16)
  Bytes.ofNatLe 16 (value + LittleEndian.toNat ((oneTime.drop 16).take 16))

def encrypt (key : Bytes 32) (associated buffer : List UInt8) : List UInt8 × Bytes 16 :=
  let sealed := cipher key buffer
  (sealed, authenticate key associated sealed)

def decrypt (key : Bytes 32) (associated sealed : List UInt8) (tag : Bytes 16) :
    Option (List UInt8) :=
  if authenticate key associated sealed = tag then some (cipher key sealed) else none

@[simp] theorem length_keystream (key : Bytes 32) (length : Nat) :
    (keystream key length).length = length := by
  simp [keystream]

@[simp] theorem length_cipher (key : Bytes 32) (buffer : List UInt8) :
    (cipher key buffer).length = buffer.length := by
  simp [cipher]

private theorem zipWith_xor_cancel (buffer stream : List UInt8) (hlength : buffer.length = stream.length) :
    List.zipWith (· ^^^ ·) (List.zipWith (· ^^^ ·) buffer stream) stream = buffer := by
  induction buffer generalizing stream with
  | nil => rfl
  | cons byte buffer ih => cases stream with
    | nil => cases hlength
    | cons key stream =>
        have hrest := ih stream (Nat.succ.inj hlength)
        have hbyte : byte ^^^ key ^^^ key = byte := by
          rw [UInt8.xor_assoc, UInt8.xor_self, UInt8.xor_zero]
        rw [List.zipWith_cons_cons, List.zipWith_cons_cons, hrest, hbyte]

-- The same keystream takes itself off.
@[simp] theorem cipher_cipher (key : Bytes 32) (buffer : List UInt8) :
    cipher key (cipher key buffer) = buffer := by
  unfold cipher
  rw [List.length_zipWith, length_keystream, Nat.min_self]
  exact zipWith_xor_cancel _ _ (length_keystream key _).symm

-- What was sealed opens under the same key and associated data.
theorem decrypt_encrypt (key : Bytes 32) (associated buffer : List UInt8) :
    decrypt key associated (encrypt key associated buffer).1 (encrypt key associated buffer).2 =
      some buffer := by
  simp [decrypt, encrypt]

-- The associated data and the tag decide only whether a ciphertext opens.
theorem decrypt_unique {key : Bytes 32} {associated other sealed plain opened : List UInt8}
    {tag mark : Bytes 16} (hplain : decrypt key associated sealed tag = some plain)
    (hopened : decrypt key other sealed mark = some opened) : opened = plain := by
  unfold decrypt at hplain hopened
  split at hplain
  · split at hopened
    · exact (Option.some.inj hopened).symm.trans (Option.some.inj hplain)
    · cases hopened
  · cases hplain

end ChaCha20Poly1305
