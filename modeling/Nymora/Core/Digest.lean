import Nymora.Lib.Bytes

namespace Nymora.Core

abbrev DIGEST_LEN : Nat := 32

inductive DigestName
  | MessageHash | Nullifier | Commitment | Root | SessionPseudonym | SessionCommitment
  | SessionContext | AgoraId | PolicyClass | InboxPublicKey | Node | SessionId | SubjectId
deriving DecidableEq

-- The 32-byte newtypes: one wrapper, with the name of the type as an index, so that a
-- nullifier is never passed where a commitment is expected.
structure Digest (name : DigestName) where
  fromBytes ::
  asBytes : Bytes 32
deriving DecidableEq

abbrev MessageHash := Digest .MessageHash
abbrev Nullifier := Digest .Nullifier
abbrev Commitment := Digest .Commitment
abbrev Root := Digest .Root
abbrev SessionPseudonym := Digest .SessionPseudonym
abbrev SessionCommitment := Digest .SessionCommitment
abbrev SessionContext := Digest .SessionContext
abbrev AgoraId := Digest .AgoraId
abbrev PolicyClass := Digest .PolicyClass
abbrev InboxPublicKey := Digest .InboxPublicKey

namespace Digest

variable {name : DigestName}

theorem asBytes_inj {left right : Digest name} :
    left.asBytes = right.asBytes ↔ left = right := by
  cases left; cases right; simp

instance : Ord (Digest name) where
  compare left right := compare left.asBytes right.asBytes

instance : Std.TransOrd (Digest name) where
  eq_swap {left right} := Std.OrientedOrd.eq_swap (a := left.asBytes) (b := right.asBytes)
  isLE_trans {left middle right} := Std.TransOrd.isLE_trans
    (a := left.asBytes) (b := middle.asBytes) (c := right.asBytes)

instance : Std.LawfulEqOrd (Digest name) where
  eq_of_compare heq := asBytes_inj.1 (Std.LawfulEqOrd.eq_of_compare heq)
  compare_self {digest} := Std.ReflOrd.compare_self (a := digest.asBytes)

end Digest

inductive SecretName
  | EpochSecretKey | CredentialKey | RootOpening | InboxSecretKey | TagKey | FetchKey | BodyKey
deriving DecidableEq

-- Secret bytes under their name; reaching the contents is `expose`.
structure Secret (name : SecretName) where
  new ::
  expose : Bytes 32
deriving DecidableEq

abbrev EpochSecretKey := Secret .EpochSecretKey
abbrev CredentialKey := Secret .CredentialKey
abbrev RootOpening := Secret .RootOpening
abbrev InboxSecretKey := Secret .InboxSecretKey
abbrev TagKey := Secret .TagKey
abbrev FetchKey := Secret .FetchKey
abbrev BodyKey := Secret .BodyKey

abbrev INBOX_TAG_LEN : Nat := 8

structure InboxTag where
  fromBytes ::
  asBytes : Bytes 8
deriving DecidableEq

end Nymora.Core
