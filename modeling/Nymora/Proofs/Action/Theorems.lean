import Nymora.Circuits.Stub.Binding
import Nymora.Plonk.Relation.Backend
import Nymora.Proofs.Action

namespace Nymora.Proofs

open Nymora.Core
open Nymora.Crypto
open Nymora.Circuits

variable [Primitives] {depth : Nat}

-- The chain's clauses, short of the action's own.
def Stands (witness : ChainWitness depth) (agora : AgoraId) (epoch : Epoch) (roots : EpochRoots) :
    Prop :=
  ∀ action, actionHolds witness.epochKey witness.credentialKey agora action = true →
    chainHolds witness (chainPublics agora epoch roots action) = true

-- Every action is proved, and accepted with the output its proof came with.
structure Acts (system : ProofSystem depth) (witness : ChainWitness depth) (agora : AgoraId)
    (epoch : Epoch) (roots : EpochRoots) : Prop where
  authorship : ∀ messageHash, ∃ proof nullifier,
    proveAuthorship system witness agora epoch roots messageHash = .ok (proof, nullifier) ∧
      verifyAuthorship system proof agora epoch roots messageHash nullifier = true
  vouch : ∀ sessionId, ∃ proof nullifier,
    proveVouch system witness agora epoch roots sessionId = .ok (proof, nullifier) ∧
      verifyVouch system proof agora epoch roots sessionId nullifier = true
  policyApproval : ∀ proposalId, ∃ proof nullifier,
    provePolicyApproval system witness agora epoch roots proposalId = .ok (proof, nullifier) ∧
      verifyPolicyApproval system proof agora epoch roots proposalId nullifier = true
  liveAuth : ∀ context, ∃ proof pseudonym,
    proveLiveAuth system witness agora epoch roots context = .ok (proof, pseudonym) ∧
      verifyLiveAuth system proof agora epoch roots context pseudonym = true
  verificationAccess : ∀ challenge, ∃ proof,
    proveVerificationAccess system witness agora epoch roots challenge = .ok proof ∧
      verifyVerificationAccess system proof agora epoch roots challenge = true

variable {system : ProofSystem depth} {witness : ChainWitness depth} {agora : AgoraId}
  {epoch : Epoch} {roots : EpochRoots}

omit [Primitives] in
theorem proveDerived_eq_ok {Output : Type} {action : Output → Action} {derived : Output}
    {proof : system.Proof}
    (hproved : system.prove witness (chainPublics agora epoch roots (action derived)) =
      .ok proof) :
    proveDerived system witness agora epoch roots action derived = .ok (proof, derived) := by
  rw [proveDerived, hproved]
  rfl

-- A system that proves the actions whose outputs the witness derives proves every action.
theorem acts_of_proves
    (hproves : ∀ action, actionHolds witness.epochKey witness.credentialKey agora action = true →
      ∃ proof, system.prove witness (chainPublics agora epoch roots action) = .ok proof ∧
        system.verify proof (chainPublics agora epoch roots action) = true) :
    Acts system witness agora epoch roots where
  authorship messageHash := by
    obtain ⟨proof, hproved, haccepted⟩ := hproves
      (.Authorship messageHash (Nullifier.attestation witness.epochKey messageHash agora))
      (by simp [actionHolds])
    exact ⟨proof, _, proveDerived_eq_ok hproved, haccepted⟩
  vouch sessionId := by
    obtain ⟨proof, hproved, haccepted⟩ := hproves
      (.Vouch sessionId (Nullifier.vouch witness.credentialKey sessionId agora))
      (by simp [actionHolds])
    exact ⟨proof, _, proveDerived_eq_ok hproved, haccepted⟩
  policyApproval proposalId := by
    obtain ⟨proof, hproved, haccepted⟩ := hproves
      (.PolicyApproval proposalId (Nullifier.policy witness.credentialKey proposalId agora))
      (by simp [actionHolds])
    exact ⟨proof, _, proveDerived_eq_ok hproved, haccepted⟩
  liveAuth context := by
    obtain ⟨proof, hproved, haccepted⟩ := hproves
      (.LiveAuth context (LiveAuth.pseudonym witness.epochKey context agora))
      (by simp [actionHolds])
    exact ⟨proof, _, proveDerived_eq_ok hproved, haccepted⟩
  verificationAccess challenge := hproves (.VerificationAccess challenge) rfl

-- The stub proves for whoever stands.
theorem Stands.acts_stub (hstands : Stands witness agora epoch roots) :
    Acts (StubProver depth) witness agora epoch roots := by
  apply acts_of_proves
  intro action haction
  have hholds := hstands action haction
  obtain ⟨proof, hproved, hbinding, hwitness⟩ := prove_of_chainHolds hholds
  refine ⟨proof, hproved, ?_⟩
  simp [StubProver, hbinding, hwitness, hholds]

-- Roots the circuit's field has.
def EpochRoots.Convert (roots : EpochRoots) : Prop :=
  (Plonk.decode roots.policyClass.asBytes).isSome ∧
    (Plonk.decode roots.revocation.asBytes).isSome ∧ (Plonk.decode roots.spend.asBytes).isSome

theorem chainInstance_isSome {action : Action} (hroots : roots.Convert)
    (haction : actionHolds witness.epochKey witness.credentialKey agora action = true) :
    (Plonk.chainInstance (chainPublics agora epoch roots action)).isSome := by
  have houtput : (Plonk.actionInstance action).isSome := by
    cases action with
    | VerificationAccess challenge => rfl
    | _ =>
      obtain rfl := of_decide_eq_true haction
      simp [Plonk.actionInstance, Nullifier.attestation, Nullifier.vouch, Nullifier.policy,
        Nullifier.actionOutput, LiveAuth.pseudonym, Plonk.decode_toBytes]
  obtain ⟨output, houtput⟩ := Option.isSome_iff_exists.1 houtput
  obtain ⟨hclass, hrevocation, hspend⟩ := hroots
  obtain ⟨classRoot, hclass⟩ := Option.isSome_iff_exists.1 hclass
  obtain ⟨revocationRoot, hrevocation⟩ := Option.isSome_iff_exists.1 hrevocation
  obtain ⟨spendRoot, hspend⟩ := Option.isSome_iff_exists.1 hspend
  simp [Plonk.chainInstance, chainPublics, houtput, hclass, hrevocation, hspend]

-- So does the real backend, where it can take the witness and the roots.
theorem Stands.acts_backend (hstands : Stands witness agora epoch roots)
    (hpoints : Plonk.PointEncoding) {stdLib : Plonk.CircuitLib} (hstd : stdLib.Documented)
    {backend : Plonk.Backend depth} (hrealizes : backend.Realizes stdLib)
    (hwitness : (Plonk.chainWitness witness).isSome) (hroots : roots.Convert) :
    Acts backend.proofSystem witness agora epoch roots := by
  apply acts_of_proves
  intro action haction
  exact Plonk.prove_of_chainHolds hpoints hstd hrealizes hwitness
    (chainInstance_isSome hroots haction) (hstands action haction)

-- A planned migration is proved with its spend, and accepted with that spend.
def Migrates (system : ProofSystem depth) (witness : MigrationWitness depth) (agora : AgoraId)
    (classRoot revocationRoot : Root) (spend : Core.Nullifier) (commitment : Commitment) : Prop :=
  ∃ proof, proveMigration system witness agora classRoot revocationRoot commitment =
      .ok (proof, spend) ∧
    verifyMigration system proof agora classRoot revocationRoot spend commitment = true

-- An inbox instruction is proved and accepted.
def Instructs (system : ProofSystem depth) (witness : InboxWitness) (agora : AgoraId)
    (leaf : Commitment) (inbox : InboxPublicKey) (action : InboxAction) : Prop :=
  ∃ proof, proveInbox system witness agora leaf inbox action = .ok proof ∧
    verifyInbox system proof agora leaf inbox action = true

section Migrating

variable {old : MigrationWitness depth} {classRoot revocationRoot : Root} {spend : Core.Nullifier}
  {commitment leaf : Commitment} {opening : InboxWitness} {inbox : InboxPublicKey}
  {action : InboxAction}

end Migrating

end Nymora.Proofs
