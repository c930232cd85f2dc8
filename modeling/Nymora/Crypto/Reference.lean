import Nymora.Crypto.Inbox.Theorems
import Nymora.Crypto.Signature.Theorems
import Nymora.Lib.ChaCha20Poly1305
import Nymora.Lib.Curve25519
import Nymora.Lib.Sha256

namespace Nymora.Crypto.Reference

-- The byte primitives as they are published, and a group of Jubjub's order by its discrete
-- logarithms: a point is its multiple of the generator.
scoped instance primitives : Primitives where
  sha256 := Sha256.hash
  hkdfSha256 := Sha256.hkdf
  x25519PublicKey := Curve25519.publicKey
  x25519DiffieHellman := Curve25519.diffieHellman
  wasContributory := Curve25519.contributory
  chacha20Poly1305Encrypt := ChaCha20Poly1305.encrypt
  chacha20Poly1305Decrypt := ChaCha20Poly1305.decrypt
  SubgroupPoint := JubjubScalar
  decEqSubgroupPoint := inferInstance
  generator := 1
  add left right := left + right
  mul point scalar := point * scalar
  toBytes := Signature.scalarToBytes
  fromBytes := Signature.scalarFromBytes
  coordinates point := (Signature.scalarAsField point, 0)

theorem signature_correct : Signature.Correct := by
  refine Signature.correct_of_group Signature.scalarFromBytes_scalarToBytes ?_
  intro k e secret
  change (1 : JubjubScalar) * (k + e * secret) = 1 * k + 1 * secret * e
  rw [Fin.one_mul, Fin.one_mul, Fin.one_mul, Fin.mul_comm e secret]

theorem openAfterSeal : Inbox.OpenAfterSeal := ChaCha20Poly1305.decrypt_encrypt

theorem oneOpening : Inbox.OneOpening := fun _ _ _ _ _ _ _ _ => ChaCha20Poly1305.decrypt_unique

end Nymora.Crypto.Reference
