import Nymora.Core.Digest
import Nymora.Crypto.Hash

namespace Nymora.Protocol

open Nymora.Core
open Nymora.Crypto

-- What a quorum is asked to decide.
inductive Decision
  | Policy (policyClass : PolicyClass) (admissionThreshold governanceQuorum : UInt32)
  | Revocation (leaf : Commitment)
  | Dissolution
  | InboxHorizon (boundaries : UInt64)
deriving DecidableEq

namespace Decision

def domain : Decision → Domain
  | .Policy .. => .ProposalPolicy
  | .Revocation _ => .ProposalRevocation
  | .Dissolution => .ProposalDissolution
  | .InboxHorizon _ => .ProposalHorizon

-- Canonical content bytes, each field framed in a fixed order per kind.
def absorbContent (hasher : ByteHasher) : Decision → ByteHasher
  | .Policy policyClass admissionThreshold governanceQuorum =>
      ((hasher.absorb policyClass.asBytes.toList).absorb
        (LittleEndian.ofNat 4 admissionThreshold.toNat)).absorb
        (LittleEndian.ofNat 4 governanceQuorum.toNat)
  | .Revocation leaf => hasher.absorb leaf.asBytes.toList
  | .Dissolution => hasher
  | .InboxHorizon boundaries => hasher.absorb (LittleEndian.ofNat 8 boundaries.toNat)

end Decision

-- The value approvals accumulate under.
abbrev SubjectId : Type := Digest .SubjectId

def subjectId [Primitives] (agora : AgoraId) (opened : Epoch) (approvingClass : PolicyClass)
    (decision : Decision) (nonce : Bytes 32) : SubjectId :=
  let hasher := (((ByteHasher.new decision.domain).absorb agora.asBytes.toList).absorb
    opened.toLeBytes).absorb approvingClass.asBytes.toList
  .fromBytes ((decision.absorbContent hasher).absorb nonce.toList).finalize

end Nymora.Protocol
