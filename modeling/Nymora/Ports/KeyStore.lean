import Nymora.Core.Certificate
import Nymora.Core.Error

namespace Nymora.Ports

open Nymora.Core

-- Bytes written into a caller's buffer of the given size.
abbrev Written (size : Nat) := { bytes : List UInt8 // bytes.length ≤ size }

-- What creating a root wrote: its public key, and the binding where the backend has one.
structure RootMaterialWritten (publicKeySize bindingSize : Nat) where
  publicKey : Written publicKeySize
  binding : Option (Written bindingSize)

-- The root authority: a backend of the host, reached only through what it answers.
structure KeyStore where
  createRoot (agora : AgoraId) (publicKeySize bindingSize : Nat) :
    Except ProtocolError (RootMaterialWritten publicKeySize bindingSize)
  signEpochCert (payload : EpochCertPayload) (size : Nat) : Except ProtocolError (Written size)
  signMigration (payload : MigrationCertPayload) (size : Nat) :
    Except ProtocolError (Written size)
  signInboxCert (payload : InboxCertPayload) (size : Nat) : Except ProtocolError (Written size)

end Nymora.Ports
