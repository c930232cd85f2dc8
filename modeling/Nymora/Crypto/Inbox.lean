import Nymora.Core.Digest
import Nymora.Core.Error
import Nymora.Crypto.Hash

namespace Nymora.Crypto

open Nymora.Core

variable [Primitives]

-- An agora and an epoch, as every per-epoch derivation binds them.
def epochContext (agora : AgoraId) (epoch : Epoch) : List UInt8 :=
  agora.asBytes.toList ++ epoch.toLeBytes

def deriveTagKey (agoraSecret : List UInt8) (agora : AgoraId) (epoch : Epoch) : TagKey :=
  .new (Kdf.derive .TagKey agoraSecret (epochContext agora epoch))

def deriveFetchKey (agoraSecret : List UInt8) (agora : AgoraId) (epoch : Epoch) : FetchKey :=
  .new (Kdf.derive .FetchKey agoraSecret (epochContext agora epoch))

namespace Inbox

def SEAL_TAG_LEN : Nat := 16

-- The X25519 clamp.
def mintInboxSecret (entropy : Bytes 32) : Bytes 32 :=
  ((entropy.modify 0 (· &&& 248)).modify 31 (· &&& 127)).modify 31 (· ||| 64)

def inboxPublicKey (secret : InboxSecretKey) : InboxPublicKey :=
  .fromBytes (Primitives.x25519PublicKey secret.expose)

def deriveEphemeralSecret (agoraSecret : List UInt8) (agora : AgoraId) (epoch : Epoch) :
    InboxSecretKey :=
  .new (mintInboxSecret (Kdf.derive .InboxEphemeral agoraSecret (epochContext agora epoch)))

def deriveBodyKey (agoraSecret : List UInt8) (agora : AgoraId) (epoch : Epoch) : BodyKey :=
  .new (Kdf.derive .BodyKey agoraSecret (epochContext agora epoch))

-- An agreed secret between one inbox key and one ephemeral key.
structure Agreed where
  expose : Bytes 32
deriving DecidableEq

-- `none` for a non-contributory result, which names no usable secret.
def agree (secret : InboxSecretKey) (publicKey : InboxPublicKey) : Option Agreed :=
  let shared := Primitives.x25519DiffieHellman secret.expose publicKey.asBytes
  if Primitives.wasContributory shared then some ⟨shared⟩ else none

def sealContext (ephemeral inbox : InboxPublicKey) (policyClass : PolicyClass) : List UInt8 :=
  ephemeral.asBytes.toList ++ inbox.asBytes.toList ++ policyClass.asBytes.toList

def sealKey (agreed : Agreed) (ephemeral inbox : InboxPublicKey) (policyClass : PolicyClass) :
    Bytes 32 :=
  Kdf.derive .InboxSeal agreed.expose.toList (sealContext ephemeral inbox policyClass)

def lookupTag (agreed : Agreed) (ephemeral inbox : InboxPublicKey)
    (policyClass : PolicyClass) : InboxTag :=
  .fromBytes ((Kdf.derive .InboxTag agreed.expose.toList
    (sealContext ephemeral inbox policyClass)).takePrefix 8 (by decide))

def associatedData (agora : AgoraId) (epoch : Epoch) : Bytes 32 :=
  (((ByteHasher.new .BulletinBody).absorb agora.asBytes.toList).absorb epoch.toLeBytes).finalize

def sealInPlace (key : Bytes 32) (associated buffer : List UInt8) : List UInt8 × Bytes 16 :=
  Primitives.chacha20Poly1305Encrypt key associated buffer

def openInPlace (key : Bytes 32) (associated buffer : List UInt8) (tag : Bytes 16) :
    Except ProtocolError (List UInt8) :=
  match Primitives.chacha20Poly1305Decrypt key associated buffer tag with
  | some plain => .ok plain
  | none => .error .Malformed

end Inbox

end Nymora.Crypto
