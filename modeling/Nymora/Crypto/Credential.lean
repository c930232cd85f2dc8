import Nymora.Crypto.Hash
import Nymora.Crypto.Signature

namespace Nymora.Crypto

open Nymora.Core

-- The revocation-set entry for a leaf, the leaf entering by reduction of its bytes.
def revocationKey (leaf : Commitment) : Bytes 32 :=
  Field.toBytes (Poseidon.hash
    [Field.ofNat FieldDomain.REVOKE, Field.fromWitnessBytes leaf.asBytes])

-- Commits to a root key and a durable secret; `none` where the key names no subgroup point.
def commit [Primitives] (pkRoot : List UInt8) (credentialKey : CredentialKey)
    (opening : RootOpening) (agora : AgoraId) : Option Commitment := do
  let key ← Bytes.ofList? 32 pkRoot
  let point ← Primitives.fromBytes key
  let (x, y) := Primitives.coordinates point
  return .fromBytes (Field.toBytes (Poseidon.hash [Field.ofNat FieldDomain.LEAF, x, y,
    Field.fromWitnessBytes credentialKey.expose, Field.fromWitnessBytes opening.expose,
    Field.fromId agora.asBytes]))

namespace Nullifier

-- The uniform action derivation.
def actionOutput (tag : Nat) (key context : F) (agora : AgoraId) : Core.Nullifier :=
  .fromBytes (Field.toBytes (Poseidon.hash [Field.ofNat FieldDomain.ACTION, Field.ofNat tag,
    key, context, Field.fromId agora.asBytes]))

def vouch [Primitives] (key : CredentialKey) (sessionId : List UInt8) (agora : AgoraId) :
    Core.Nullifier :=
  actionOutput FieldDomain.ActionTag.VOUCH (Field.fromWitnessBytes key.expose)
    (Field.fromContextBytes sessionId) agora

def attestation (key : EpochSecretKey) (message : MessageHash) (agora : AgoraId) :
    Core.Nullifier :=
  actionOutput FieldDomain.ActionTag.AUTHORSHIP (Field.fromWitnessBytes key.expose)
    (Field.fromId message.asBytes) agora

def policy [Primitives] (key : CredentialKey) (proposalId : List UInt8) (agora : AgoraId) :
    Core.Nullifier :=
  actionOutput FieldDomain.ActionTag.POLICY (Field.fromWitnessBytes key.expose)
    (Field.fromContextBytes proposalId) agora

-- Consumes a credential's old leaf: not an action, under its own domain.
def migration (key : CredentialKey) (leaf : Commitment) (agora : AgoraId) : Core.Nullifier :=
  .fromBytes (Field.toBytes (Poseidon.hash [Field.ofNat FieldDomain.SPEND,
    Field.fromWitnessBytes key.expose, Field.fromWitnessBytes leaf.asBytes,
    Field.fromId agora.asBytes]))

end Nullifier

namespace LiveAuth

def pseudonym (key : EpochSecretKey) (context : SessionContext) (agora : AgoraId) :
    SessionPseudonym :=
  .fromBytes (Field.toBytes (Poseidon.hash [Field.ofNat FieldDomain.ACTION,
    Field.ofNat FieldDomain.ActionTag.LIVE_AUTH, Field.fromWitnessBytes key.expose,
    Field.fromId context.asBytes, Field.fromId agora.asBytes]))

end LiveAuth

end Nymora.Crypto
