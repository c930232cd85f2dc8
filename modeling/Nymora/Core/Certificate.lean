import Nymora.Core.Digest
import Nymora.Core.Domain
import Nymora.Core.Epoch

namespace Nymora.Core

structure EpochCertPayload where
  agora : AgoraId
  epoch : Epoch
  epochPublicKey : List UInt8
deriving DecidableEq

structure MigrationCertPayload where
  agora : AgoraId
  successorPublicKey : List UInt8
deriving DecidableEq

structure InboxCertPayload where
  agora : AgoraId
  action : InboxAction
  inboxPublicKey : List UInt8
deriving DecidableEq

end Nymora.Core
