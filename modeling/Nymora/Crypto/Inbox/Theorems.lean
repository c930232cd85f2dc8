import Nymora.Crypto.Inbox

namespace Nymora.Crypto.Inbox

open Nymora.Core

variable [Primitives]

-- What is sealed opens under the same key and associated data.
def OpenAfterSeal : Prop :=
  ∀ (key : Bytes 32) (associated plain : List UInt8),
    Primitives.chacha20Poly1305Decrypt key associated
      (Primitives.chacha20Poly1305Encrypt key associated plain).1
      (Primitives.chacha20Poly1305Encrypt key associated plain).2 = some plain

-- A ciphertext has one plaintext under a key, whatever data it is opened with.
def OneOpening : Prop :=
  ∀ (key : Bytes 32) (associated other ciphertext plain opened : List UInt8) (tag mark : Bytes 16),
    Primitives.chacha20Poly1305Decrypt key associated ciphertext tag = some plain →
    Primitives.chacha20Poly1305Decrypt key other ciphertext mark = some opened → opened = plain

-- The two sides of an exchange agree on the same secret, or both on none.
def Symmetric (left right : InboxSecretKey) : Prop :=
  agree left (inboxPublicKey right) = agree right (inboxPublicKey left)

theorem openInPlace_sealInPlace (hopens : OpenAfterSeal) (key : Bytes 32)
    (associated plain : List UInt8) :
    openInPlace key associated (sealInPlace key associated plain).1
      (sealInPlace key associated plain).2 = .ok plain := by
  rw [openInPlace, sealInPlace, hopens]

end Nymora.Crypto.Inbox
