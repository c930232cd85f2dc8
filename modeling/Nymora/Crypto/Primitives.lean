import Nymora.Crypto.Field

namespace Nymora.Crypto

-- The third-party cryptography the protocol is built on. Nothing is assumed of it here:
-- a result that needs a property of one of these functions takes it as a hypothesis.
class Primitives where
  sha256 : List UInt8 → Bytes 32
  -- HKDF-SHA256 without salt: input keying material, info, 32 bytes of output.
  hkdfSha256 : List UInt8 → List UInt8 → Bytes 32
  x25519PublicKey : Bytes 32 → Bytes 32
  x25519DiffieHellman : Bytes 32 → Bytes 32 → Bytes 32
  wasContributory : Bytes 32 → Bool
  -- ChaCha20-Poly1305 under the zero nonce: key, associated data, buffer.
  chacha20Poly1305Encrypt : Bytes 32 → List UInt8 → List UInt8 → List UInt8 × Bytes 16
  chacha20Poly1305Decrypt : Bytes 32 → List UInt8 → List UInt8 → Bytes 16 → Option (List UInt8)
  -- Jubjub's prime-order subgroup.
  SubgroupPoint : Type
  decEqSubgroupPoint : DecidableEq SubgroupPoint
  generator : SubgroupPoint
  add : SubgroupPoint → SubgroupPoint → SubgroupPoint
  mul : SubgroupPoint → JubjubScalar → SubgroupPoint
  toBytes : SubgroupPoint → Bytes 32
  fromBytes : Bytes 32 → Option SubgroupPoint
  coordinates : SubgroupPoint → F × F

abbrev SubgroupPoint [Primitives] : Type := Primitives.SubgroupPoint

instance [Primitives] : DecidableEq SubgroupPoint := Primitives.decEqSubgroupPoint

end Nymora.Crypto
