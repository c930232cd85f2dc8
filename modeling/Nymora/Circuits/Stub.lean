import Nymora.Circuits.Statement
import Nymora.Crypto.Credential

namespace Nymora.Circuits

open Nymora.Core
open Nymora.Crypto
open Nymora.Accumulator

def CHAIN_BINDING : String := "stub-prover/v0/chain-binding"
def MIGRATION_BINDING : String := "stub-prover/v0/migration-binding"
def INBOX_BINDING : String := "stub-prover/v0/inbox-binding"

variable [Primitives]

private def framedAll (parts : List (List UInt8)) : List UInt8 := parts.flatMap framed

-- The action's part of the chain binding: a discriminant, then its fields.
def Action.bindingParts : Action → List (List UInt8)
  | .Authorship messageHash nullifier =>
      [[0], messageHash.asBytes.toList, nullifier.asBytes.toList]
  | .Vouch sessionId nullifier => [[1], sessionId, nullifier.asBytes.toList]
  | .PolicyApproval proposalId nullifier => [[2], proposalId, nullifier.asBytes.toList]
  | .LiveAuth context pseudonym => [[3], context.asBytes.toList, pseudonym.asBytes.toList]
  | .VerificationAccess challenge => [[4], challenge]

-- The digest of an ordinary proof's full public inputs.
def chainBinding (inputs : ChainPublicInputs) : Bytes 32 :=
  Primitives.sha256 (framedAll ([CHAIN_BINDING.toUTF8.data.toList, inputs.agora.asBytes.toList,
    inputs.epoch.toLeBytes, inputs.classRoot.asBytes.toList,
    inputs.revocationRoot.asBytes.toList, inputs.spendRoot.asBytes.toList] ++
    inputs.action.bindingParts))

def migrationBinding (inputs : MigrationPublicInputs) : Bytes 32 :=
  Primitives.sha256 (framedAll [MIGRATION_BINDING.toUTF8.data.toList, inputs.agora.asBytes.toList,
    inputs.classRoot.asBytes.toList, inputs.revocationRoot.asBytes.toList,
    inputs.spendNullifier.asBytes.toList, inputs.successorCommitment.asBytes.toList])

def inboxBinding (inputs : InboxPublicInputs) : Bytes 32 :=
  Primitives.sha256 (framedAll [INBOX_BINDING.toUTF8.data.toList, inputs.agora.asBytes.toList,
    inputs.leaf.asBytes.toList, inputs.inboxPublicKey.asBytes.toList,
    LittleEndian.ofNat 8 inputs.action.tag])

-- The final clause: the action's own output is correctly derived.
def actionHolds (epochKey : EpochSecretKey) (credentialKey : CredentialKey) (agora : AgoraId) :
    Action → Bool
  | .Authorship messageHash claimed =>
      decide (claimed = Nullifier.attestation epochKey messageHash agora)
  | .Vouch sessionId claimed => decide (claimed = Nullifier.vouch credentialKey sessionId agora)
  | .PolicyApproval proposalId claimed =>
      decide (claimed = Nullifier.policy credentialKey proposalId agora)
  | .LiveAuth context claimed => decide (claimed = LiveAuth.pseudonym epochKey context agora)
  | .VerificationAccess _ => true

-- Every clause of the membership chain, in the specification's order.
def chainHolds {depth : Nat} (witness : ChainWitness depth) (inputs : ChainPublicInputs) : Bool :=
  Option.getD (do
    let pk ← Signature.publicKey witness.epochKey.expose
    guard (pk.toList = witness.epochPublicKey)
    let message ← Signature.epochCertMessage inputs.agora inputs.epoch witness.epochPublicKey
    guard (Signature.verify witness.rootPublicKey message witness.epochCertSignature)
    let leaf ← commit witness.rootPublicKey witness.credentialKey witness.rootOpening inputs.agora
    guard (verifies leaf witness.leafWitness inputs.classRoot)
    guard (verifiesAbsent (revocationKey leaf) witness.revocationAbsence inputs.revocationRoot)
    let spend := Nullifier.migration witness.credentialKey leaf inputs.agora
    guard (verifiesAbsent spend.asBytes witness.spendAbsence inputs.spendRoot)
    return actionHolds witness.epochKey witness.credentialKey inputs.agora inputs.action :
      Option Bool) false

-- Every clause of the migration statement.
def migrationHolds {depth : Nat} (witness : MigrationWitness depth)
    (inputs : MigrationPublicInputs) : Bool :=
  Option.getD (do
    let oldLeaf ← commit witness.oldRootPublicKey witness.credentialKey witness.oldRootOpening
      inputs.agora
    guard (verifies oldLeaf witness.oldLeafWitness inputs.classRoot)
    guard (verifiesAbsent (revocationKey oldLeaf) witness.revocationAbsence inputs.revocationRoot)
    guard (inputs.spendNullifier = Nullifier.migration witness.credentialKey oldLeaf inputs.agora)
    let message ← Signature.migrationCertMessage inputs.agora witness.successorPublicKey
    guard (Signature.verify witness.oldRootPublicKey message witness.migrationCertSignature)
    return decide (commit witness.successorPublicKey witness.credentialKey
      witness.successorOpening inputs.agora = some inputs.successorCommitment) : Option Bool) false

-- The inbox statement: the secrets open the public leaf, and its root key signed this.
def inboxHolds (witness : InboxWitness) (inputs : InboxPublicInputs) : Bool :=
  Option.getD (do
    guard (commit witness.rootPublicKey witness.credentialKey witness.rootOpening inputs.agora =
      some inputs.leaf)
    let message ← Signature.inboxCertMessage inputs.agora inputs.action
      inputs.inboxPublicKey.asBytes.toList
    return Signature.verify witness.rootPublicKey message witness.inboxCertSignature :
      Option Bool) false

-- A stub proof is the witness, embedded in the clear, behind the binding of its inputs.
structure StubProof (depth : Nat) where
  binding : Bytes 32
  epochKey : EpochSecretKey
  epochPublicKey : Bytes 32
  epochCertSignature : Bytes 64
  credentialKey : CredentialKey
  rootOpening : RootOpening
  rootPublicKey : Bytes 32
  leafWitness : Witness depth
  revocationAbsence : AbsenceWitness depth
  spendAbsence : AbsenceWitness depth

structure MigrationStubProof (depth : Nat) where
  binding : Bytes 32
  oldRootPublicKey : Bytes 32
  oldRootOpening : RootOpening
  credentialKey : CredentialKey
  oldLeafWitness : Witness depth
  migrationCertSignature : Bytes 64
  successorPublicKey : Bytes 32
  successorOpening : RootOpening
  revocationAbsence : AbsenceWitness depth

structure InboxStubProof where
  binding : Bytes 32
  rootPublicKey : Bytes 32
  rootOpening : RootOpening
  credentialKey : CredentialKey
  inboxCertSignature : Bytes 64

namespace StubProof

variable {depth : Nat}

def witness (proof : StubProof depth) : ChainWitness depth where
  epochKey := proof.epochKey
  epochPublicKey := proof.epochPublicKey.toList
  epochCertSignature := proof.epochCertSignature.toList
  credentialKey := proof.credentialKey
  rootOpening := proof.rootOpening
  rootPublicKey := proof.rootPublicKey.toList
  leafWitness := proof.leafWitness
  revocationAbsence := proof.revocationAbsence
  spendAbsence := proof.spendAbsence

end StubProof

def MigrationStubProof.witness {depth : Nat} (proof : MigrationStubProof depth) :
    MigrationWitness depth where
  oldRootPublicKey := proof.oldRootPublicKey.toList
  oldRootOpening := proof.oldRootOpening
  credentialKey := proof.credentialKey
  oldLeafWitness := proof.oldLeafWitness
  migrationCertSignature := proof.migrationCertSignature.toList
  successorPublicKey := proof.successorPublicKey.toList
  successorOpening := proof.successorOpening
  revocationAbsence := proof.revocationAbsence

def InboxStubProof.witness (proof : InboxStubProof) : InboxWitness where
  rootPublicKey := proof.rootPublicKey.toList
  rootOpening := proof.rootOpening
  credentialKey := proof.credentialKey
  inboxCertSignature := proof.inboxCertSignature.toList

-- Copies a scheme-width slice, or reports the caller's input unusable.
def sized (width : Nat) (bytes : List UInt8) : Except ProtocolError (Bytes width) :=
  match Bytes.ofList? width bytes with
  | some sizedBytes => .ok sizedBytes
  | none => .error .Malformed

-- The stand-in backend: proves by checking, verifies by re-checking, the binding first.
def StubProver (depth : Nat) : ProofSystem depth where
  Proof := StubProof depth
  MigrationProof := MigrationStubProof depth
  InboxProof := InboxStubProof
  prove witness inputs := do
    if ¬ chainHolds witness inputs then throw .Malformed
    return {
      binding := chainBinding inputs
      epochKey := witness.epochKey
      epochPublicKey := ← sized 32 witness.epochPublicKey
      epochCertSignature := ← sized 64 witness.epochCertSignature
      credentialKey := witness.credentialKey
      rootOpening := witness.rootOpening
      rootPublicKey := ← sized 32 witness.rootPublicKey
      leafWitness := witness.leafWitness
      revocationAbsence := witness.revocationAbsence
      spendAbsence := witness.spendAbsence }
  verify proof inputs :=
    decide (proof.binding = chainBinding inputs) && chainHolds proof.witness inputs
  proveMigration witness inputs := do
    if ¬ migrationHolds witness inputs then throw .Malformed
    return {
      binding := migrationBinding inputs
      oldRootPublicKey := ← sized 32 witness.oldRootPublicKey
      oldRootOpening := witness.oldRootOpening
      credentialKey := witness.credentialKey
      oldLeafWitness := witness.oldLeafWitness
      migrationCertSignature := ← sized 64 witness.migrationCertSignature
      successorPublicKey := ← sized 32 witness.successorPublicKey
      successorOpening := witness.successorOpening
      revocationAbsence := witness.revocationAbsence }
  verifyMigration proof inputs :=
    decide (proof.binding = migrationBinding inputs) && migrationHolds proof.witness inputs
  proveInbox witness inputs := do
    if ¬ inboxHolds witness inputs then throw .Malformed
    return {
      binding := inboxBinding inputs
      rootPublicKey := ← sized 32 witness.rootPublicKey
      rootOpening := witness.rootOpening
      credentialKey := witness.credentialKey
      inboxCertSignature := ← sized 64 witness.inboxCertSignature }
  verifyInbox proof inputs :=
    decide (proof.binding = inboxBinding inputs) && inboxHolds proof.witness inputs

end Nymora.Circuits
