import Nymora.Crypto.Signature
import Nymora.Lib.Merkle

namespace Nymora.Plonk

open Nymora.Crypto

-- One authentication path: the sibling at each level, and whether the running node is the
-- right child there.
structure Path (depth : Nat) where
  siblings : List F
  bits : List Bool
  length_siblings : siblings.length = depth
  length_bits : bits.length = depth

-- The root a path computes from a leaf.
def Path.root {depth : Nat} (path : Path depth) (leaf : F) : F :=
  (path.siblings.zip path.bits).foldl (fun current (sibling, bit) =>
    let (left, right) := if bit then (sibling, current) else (current, sibling)
    Poseidon.hash [left, right]) leaf

-- An absence witness: the gap claimed to contain the key, and its inclusion path.
structure AbsenceWitness (depth : Nat) where
  low : F
  high : F
  path : Path depth

section

variable [Primitives]

-- A signature in the (R, S) form.
structure Signature where
  r : SubgroupPoint
  s : JubjubScalar

-- The private witness of an ordinary proof, field-native.
structure ChainWitness (depth : Nat) where
  epochKeyBytes : Bytes 32
  epochPublicKey : SubgroupPoint
  epochCertificate : Signature
  credentialKey : F
  rootOpening : F
  rootPublicKey : SubgroupPoint
  classPath : Path depth
  revocationAbsence : AbsenceWitness depth
  spendAbsence : AbsenceWitness depth

structure MigrationWitness (depth : Nat) where
  oldRootPublicKey : SubgroupPoint
  oldRootOpening : F
  credentialKey : F
  oldClassPath : Path depth
  migrationCertificate : Signature
  successorPublicKey : SubgroupPoint
  successorOpening : F
  revocationAbsence : AbsenceWitness depth

structure InboxWitness where
  rootPublicKey : SubgroupPoint
  rootOpening : F
  credentialKey : F
  certificate : Signature

end

-- The public inputs of an ordinary proof: eight field elements, for every action.
structure ChainInstance where
  agora : F
  epoch : F
  classRoot : F
  revocationRoot : F
  spendRoot : F
  actionTag : F
  actionContext : F
  actionOutput : F
deriving DecidableEq

structure MigrationInstance where
  agora : F
  classRoot : F
  revocationRoot : F
  spendNullifier : F
  successorCommitment : F
deriving DecidableEq

structure InboxInstance where
  agora : F
  leaf : F
  inboxKey : F
  action : F
deriving DecidableEq

end Nymora.Plonk
