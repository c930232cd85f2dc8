import Nymora.Circuits.Statement
import Nymora.Crypto.Credential

namespace Nymora.Proofs

open Nymora.Core
open Nymora.Circuits

-- One epoch's three roots, together.
structure EpochRoots where
  policyClass : Root
  revocation : Root
  spend : Root
deriving DecidableEq

def chainPublics (agora : AgoraId) (epoch : Epoch) (roots : EpochRoots) (action : Action) :
    ChainPublicInputs where
  agora := agora
  epoch := epoch
  classRoot := roots.policyClass
  revocationRoot := roots.revocation
  spendRoot := roots.spend
  action := action

section Prove

variable {depth : Nat} (system : ProofSystem depth) (witness : ChainWitness depth)
  (agora : AgoraId) (epoch : Epoch) (roots : EpochRoots)

-- Proves an action whose output is derived here, from the witness, never supplied.
def proveDerived {Output : Type} (action : Output → Action) (derived : Output) :
    Except ProtocolError (system.Proof × Output) := do
  let proof ← system.prove witness (chainPublics agora epoch roots (action derived))
  return (proof, derived)

def proveAuthorship (messageHash : MessageHash) :
    Except ProtocolError (system.Proof × Nullifier) :=
  proveDerived system witness agora epoch roots (.Authorship messageHash)
    (Crypto.Nullifier.attestation witness.epochKey messageHash agora)

def proveVouch [Crypto.Primitives] (sessionId : List UInt8) :
    Except ProtocolError (system.Proof × Nullifier) :=
  proveDerived system witness agora epoch roots (.Vouch sessionId)
    (Crypto.Nullifier.vouch witness.credentialKey sessionId agora)

def provePolicyApproval [Crypto.Primitives] (proposalId : List UInt8) :
    Except ProtocolError (system.Proof × Nullifier) :=
  proveDerived system witness agora epoch roots (.PolicyApproval proposalId)
    (Crypto.Nullifier.policy witness.credentialKey proposalId agora)

def proveLiveAuth (context : SessionContext) :
    Except ProtocolError (system.Proof × SessionPseudonym) :=
  proveDerived system witness agora epoch roots (.LiveAuth context)
    (Crypto.LiveAuth.pseudonym witness.epochKey context agora)

-- No output: access is not a count.
def proveVerificationAccess (challenge : List UInt8) : Except ProtocolError system.Proof :=
  system.prove witness (chainPublics agora epoch roots (.VerificationAccess challenge))

end Prove

-- The spend is derived from the witness; a root key that names no point commits to nothing.
def proveMigration [Crypto.Primitives] {depth : Nat} (system : ProofSystem depth)
    (witness : MigrationWitness depth) (agora : AgoraId) (classRoot revocationRoot : Root)
    (successorCommitment : Commitment) :
    Except ProtocolError (system.MigrationProof × Nullifier) := do
  match Crypto.commit witness.oldRootPublicKey witness.credentialKey witness.oldRootOpening
      agora with
  | none => throw .Malformed
  | some oldLeaf =>
      let spend := Crypto.Nullifier.migration witness.credentialKey oldLeaf agora
      let proof ← system.proveMigration witness
        ⟨agora, classRoot, revocationRoot, spend, successorCommitment⟩
      return (proof, spend)

def proveInbox {depth : Nat} (system : ProofSystem depth) (witness : InboxWitness)
    (agora : AgoraId) (leaf : Commitment) (inboxPublicKey : InboxPublicKey)
    (action : InboxAction) : Except ProtocolError system.InboxProof :=
  system.proveInbox witness ⟨agora, leaf, inboxPublicKey, action⟩

section Verify

variable {depth : Nat} (system : ProofSystem depth) (proof : system.Proof) (agora : AgoraId)
  (epoch : Epoch) (roots : EpochRoots)

def verifyAuthorship (messageHash : MessageHash) (claimed : Nullifier) : Bool :=
  system.verify proof (chainPublics agora epoch roots (.Authorship messageHash claimed))

def verifyVouch (sessionId : List UInt8) (claimed : Nullifier) : Bool :=
  system.verify proof (chainPublics agora epoch roots (.Vouch sessionId claimed))

def verifyPolicyApproval (proposalId : List UInt8) (claimed : Nullifier) : Bool :=
  system.verify proof (chainPublics agora epoch roots (.PolicyApproval proposalId claimed))

def verifyLiveAuth (context : SessionContext) (claimed : SessionPseudonym) : Bool :=
  system.verify proof (chainPublics agora epoch roots (.LiveAuth context claimed))

def verifyVerificationAccess (challenge : List UInt8) : Bool :=
  system.verify proof (chainPublics agora epoch roots (.VerificationAccess challenge))

end Verify

def verifyMigration {depth : Nat} (system : ProofSystem depth) (proof : system.MigrationProof)
    (agora : AgoraId) (classRoot revocationRoot : Root) (spendNullifier : Nullifier)
    (successorCommitment : Commitment) : Bool :=
  system.verifyMigration proof
    { agora, classRoot, revocationRoot, spendNullifier, successorCommitment }

def verifyInbox {depth : Nat} (system : ProofSystem depth) (proof : system.InboxProof)
    (agora : AgoraId) (leaf : Commitment) (inboxPublicKey : InboxPublicKey)
    (action : InboxAction) : Bool :=
  system.verifyInbox proof { agora, leaf, inboxPublicKey, action }

end Nymora.Proofs
