import Nymora.Accumulator.Exclusion
import Nymora.Core.Error

namespace Nymora.Circuits

open Nymora.Core
open Nymora.Accumulator

-- Everything the prover of the membership chain holds privately. The leaf is recomputed.
structure ChainWitness (depth : Nat) where
  epochKey : EpochSecretKey
  epochPublicKey : List UInt8
  epochCertSignature : List UInt8
  credentialKey : CredentialKey
  rootOpening : RootOpening
  rootPublicKey : List UInt8
  leafWitness : Witness depth
  revocationAbsence : AbsenceWitness depth
  spendAbsence : AbsenceWitness depth

-- The action-specific final clause, with its public output.
inductive Action
  | Authorship (messageHash : MessageHash) (nullifier : Nullifier)
  | Vouch (sessionId : List UInt8) (nullifier : Nullifier)
  | PolicyApproval (proposalId : List UInt8) (nullifier : Nullifier)
  | LiveAuth (context : SessionContext) (pseudonym : SessionPseudonym)
  | VerificationAccess (challenge : List UInt8)
deriving DecidableEq

structure ChainPublicInputs where
  agora : AgoraId
  epoch : Epoch
  classRoot : Root
  revocationRoot : Root
  spendRoot : Root
  action : Action
deriving DecidableEq

structure MigrationWitness (depth : Nat) where
  oldRootPublicKey : List UInt8
  oldRootOpening : RootOpening
  credentialKey : CredentialKey
  oldLeafWitness : Witness depth
  migrationCertSignature : List UInt8
  successorPublicKey : List UInt8
  successorOpening : RootOpening
  revocationAbsence : AbsenceWitness depth

structure MigrationPublicInputs where
  agora : AgoraId
  classRoot : Root
  revocationRoot : Root
  spendNullifier : Nullifier
  successorCommitment : Commitment
deriving DecidableEq

structure InboxWitness where
  rootPublicKey : List UInt8
  rootOpening : RootOpening
  credentialKey : CredentialKey
  inboxCertSignature : List UInt8

structure InboxPublicInputs where
  agora : AgoraId
  leaf : Commitment
  inboxPublicKey : InboxPublicKey
  action : InboxAction
deriving DecidableEq

-- A proving system for the three statements. Verification answers one bit.
structure ProofSystem (depth : Nat) where
  Proof : Type
  MigrationProof : Type
  InboxProof : Type
  prove : ChainWitness depth → ChainPublicInputs → Except ProtocolError Proof
  verify : Proof → ChainPublicInputs → Bool
  proveMigration : MigrationWitness depth → MigrationPublicInputs →
    Except ProtocolError MigrationProof
  verifyMigration : MigrationProof → MigrationPublicInputs → Bool
  proveInbox : InboxWitness → InboxPublicInputs → Except ProtocolError InboxProof
  verifyInbox : InboxProof → InboxPublicInputs → Bool

end Nymora.Circuits
