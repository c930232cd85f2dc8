namespace Nymora.Core

-- The registry of byte-family hashing contexts.
inductive Domain
  | AgoraId | Commitment | PolicyClass | AccumulatorLeaf | AccumulatorNode | ExclusionLeaf
  | ExclusionNode | MigrationCertificate | EpochCertificate | NullifierVouch
  | NullifierAttestation | NullifierPolicy | NullifierMigration | LiveAuthCommitment
  | LiveAuthContext | LiveAuthPseudonym | LiveAuthSas | TagKey | TagRouting | Bulletin
  | WitnessKey | ProposalPolicy | ProposalRevocation | ProposalDissolution | TransparencyEntry
  | TransparencyHead | LedgerEntry | LedgerHeadHandle | ActionContext | FetchKey | BodyKey
  | InboxEphemeral | InboxSeal | InboxTag | BulletinBody | EnvelopeCiphertexts
  | ProposalHorizon | Armor | Content
deriving DecidableEq, Repr

namespace Domain

def tag : Domain → String
  | AgoraId => "nymora/v0/agora-id"
  | Commitment => "nymora/v0/commitment"
  | PolicyClass => "nymora/v0/policy-class"
  | AccumulatorLeaf => "nymora/v0/accumulator/leaf"
  | AccumulatorNode => "nymora/v0/accumulator/node"
  | ExclusionLeaf => "nymora/v0/exclusion/leaf"
  | ExclusionNode => "nymora/v0/exclusion/node"
  | MigrationCertificate => "nymora/v0/migration-cert"
  | EpochCertificate => "nymora/v0/epoch-cert"
  | NullifierVouch => "nymora/v0/nullifier/vouch"
  | NullifierAttestation => "nymora/v0/nullifier/attestation"
  | NullifierPolicy => "nymora/v0/nullifier/policy"
  | NullifierMigration => "nymora/v0/nullifier/migration"
  | LiveAuthCommitment => "nymora/v0/live-auth/commitment"
  | LiveAuthContext => "nymora/v0/live-auth/context"
  | LiveAuthPseudonym => "nymora/v0/live-auth/pseudonym"
  | LiveAuthSas => "nymora/v0/live-auth/sas"
  | TagKey => "nymora/v0/tag/key"
  | TagRouting => "nymora/v0/tag/routing"
  | Bulletin => "nymora/v0/bulletin"
  | WitnessKey => "nymora/v0/witness/key"
  | ProposalPolicy => "nymora/v0/proposal/policy"
  | ProposalRevocation => "nymora/v0/proposal/revocation"
  | ProposalDissolution => "nymora/v0/proposal/dissolution"
  | TransparencyEntry => "nymora/v0/transparency/entry"
  | TransparencyHead => "nymora/v0/transparency/head"
  | LedgerEntry => "nymora/v0/ledger/entry"
  | LedgerHeadHandle => "nymora/v0/ledger/head-handle"
  | ActionContext => "nymora/v0/action-context"
  | FetchKey => "nymora/v0/fetch/key"
  | BodyKey => "nymora/v0/envelope/key"
  | InboxEphemeral => "nymora/v0/inbox/ephemeral"
  | InboxSeal => "nymora/v0/inbox/seal"
  | InboxTag => "nymora/v0/inbox/tag"
  | BulletinBody => "nymora/v0/envelope/body"
  | EnvelopeCiphertexts => "nymora/v0/envelope/ciphertexts"
  | ProposalHorizon => "nymora/v0/proposal/horizon"
  | Armor => "nymora/v0/armor"
  | Content => "nymora/v0/content"

-- `tag().as_bytes()`
def tagBytes (domain : Domain) : List UInt8 := domain.tag.toUTF8.data.toList

end Domain

namespace FieldDomain

def LEAF : Nat := 1
def GAP : Nat := 2
def ACTION : Nat := 3
def EPOCH_CERT : Nat := 4
def MIGRATION_CERT : Nat := 5
def SPEND : Nat := 6
def NONCE : Nat := 7
def REVOKE : Nat := 8
def INBOX_CERT : Nat := 9

namespace ActionTag

def AUTHORSHIP : Nat := 0
def VOUCH : Nat := 1
def POLICY : Nat := 2
def LIVE_AUTH : Nat := 3
def VERIFICATION : Nat := 4

end ActionTag

namespace InboxAction

def RETIRE : Nat := 0
def RENEW : Nat := 1

end InboxAction

end FieldDomain

-- What an inbox certificate instructs.
inductive InboxAction
  | Retire | Renew
deriving DecidableEq, Repr

def InboxAction.tag : InboxAction → Nat
  | .Retire => FieldDomain.InboxAction.RETIRE
  | .Renew => FieldDomain.InboxAction.RENEW

end Nymora.Core
