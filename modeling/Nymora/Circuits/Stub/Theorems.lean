import Nymora.Accumulator.Exclusion.Theorems
import Nymora.Circuits.Stub

namespace Nymora.Circuits

open Nymora.Core
open Nymora.Crypto
open Nymora.Accumulator

variable [Primitives] {depth : Nat}

-- The secrets a commitment opens to.
structure Opening where
  rootPublicKey : List UInt8
  credentialKey : CredentialKey
  rootOpening : RootOpening

namespace Opening

def commit (opening : Opening) (agora : AgoraId) : Option Commitment :=
  Crypto.commit opening.rootPublicKey opening.credentialKey opening.rootOpening agora

def input (opening : Opening) (agora : AgoraId) (point : SubgroupPoint) : List F :=
  [Field.ofNat FieldDomain.LEAF, (Primitives.coordinates point).1,
    (Primitives.coordinates point).2, Field.fromWitnessBytes opening.credentialKey.expose,
    Field.fromWitnessBytes opening.rootOpening.expose, Field.fromId agora.asBytes]

-- What committing hashes; nothing where the root key names no point.
def queries (opening : Opening) (agora : AgoraId) : List (List F) :=
  (((Bytes.ofList? 32 opening.rootPublicKey).bind Primitives.fromBytes).map
    (opening.input agora)).toList

theorem commit_eq_some {opening : Opening} {agora : AgoraId} {leaf : Commitment}
    (hopens : opening.commit agora = some leaf) :
    ∃ point, opening.input agora point ∈ opening.queries agora ∧
      leaf = .fromBytes (Field.toBytes (Poseidon.hash (opening.input agora point))) := by
  simp only [commit, Crypto.commit, Option.bind_eq_bind, Option.bind_eq_some_iff,
    Option.pure_def, Option.some_inj] at hopens
  obtain ⟨key, hkey, point, hpoint, rfl⟩ := hopens
  exact ⟨point, by simp [queries, hkey, hpoint], rfl⟩

-- Leaves of one field element open to one credential key and one agora, as field elements.
theorem binds {left right : Opening} {agora other : AgoraId} {leaf later : Commitment}
    (hleft : left.commit agora = some leaf) (hright : right.commit other = some later)
    (hsame : Field.fromWitnessBytes leaf.asBytes = Field.fromWitnessBytes later.asBytes)
    (hfree : Poseidon.CollisionFree (left.queries agora ++ right.queries other)) :
    Field.fromWitnessBytes left.credentialKey.expose =
        Field.fromWitnessBytes right.credentialKey.expose ∧
      Field.fromId agora.asBytes = Field.fromId other.asBytes := by
  obtain ⟨point, hquery, rfl⟩ := commit_eq_some hleft
  obtain ⟨place, hother, rfl⟩ := commit_eq_some hright
  rw [Field.fromWitnessBytes_toBytes, Field.fromWitnessBytes_toBytes] at hsame
  have hinputs := hfree.inj _ (List.mem_append_left _ hquery) _ (List.mem_append_right _ hother)
    rfl hsame
  simp only [input, List.cons.injEq, and_true] at hinputs
  exact ⟨hinputs.2.2.2.1, hinputs.2.2.2.2.2⟩

-- A commitment opens to one credential key, as a field element.
theorem credentialKey_eq {left right : Opening} {agora : AgoraId} {leaf : Commitment}
    (hleft : left.commit agora = some leaf) (hright : right.commit agora = some leaf)
    (hfree : Poseidon.CollisionFree (left.queries agora ++ right.queries agora)) :
    Field.fromWitnessBytes left.credentialKey.expose =
      Field.fromWitnessBytes right.credentialKey.expose :=
  (binds hleft hright rfl hfree).1

end Opening

omit [Primitives] in
-- The spend depends on the credential key through its field element alone.
theorem migration_congr {left right : CredentialKey} (leaf : Commitment) (agora : AgoraId)
    (hkey : Field.fromWitnessBytes left.expose = Field.fromWitnessBytes right.expose) :
    Nullifier.migration left leaf agora = Nullifier.migration right leaf agora := by
  rw [Nullifier.migration, Nullifier.migration, hkey]

-- A leaf is out of the class once its revocation entry or its spend is in the sets.
def CutOff (revocations spends : ExclusionSet depth) (opening : Opening) (leaf : Commitment)
    (agora : AgoraId) : Prop :=
  truncateKey (revocationKey leaf) ∈ revocations.keys ∨
    truncateKey (Nullifier.migration opening.credentialKey leaf agora).asBytes ∈ spends.keys

omit [Primitives] in
theorem getD_false_eq_true {checked : Option Bool} :
    checked.getD false = true ↔ checked = some true := by
  cases checked <;> simp

-- The clauses of the chain statement.
theorem chainHolds_iff {witness : ChainWitness depth} {inputs : ChainPublicInputs} :
    chainHolds witness inputs = true ↔
      ∃ pk message leaf, Signature.publicKey witness.epochKey.expose = some pk ∧
        pk.toList = witness.epochPublicKey ∧
        Signature.epochCertMessage inputs.agora inputs.epoch witness.epochPublicKey =
          some message ∧
        Signature.verify witness.rootPublicKey message witness.epochCertSignature = true ∧
        commit witness.rootPublicKey witness.credentialKey witness.rootOpening inputs.agora =
          some leaf ∧
        verifies leaf witness.leafWitness inputs.classRoot = true ∧
        verifiesAbsent (revocationKey leaf) witness.revocationAbsence inputs.revocationRoot =
          true ∧
        verifiesAbsent (Nullifier.migration witness.credentialKey leaf inputs.agora).asBytes
          witness.spendAbsence inputs.spendRoot = true ∧
        actionHolds witness.epochKey witness.credentialKey inputs.agora inputs.action = true := by
  simp only [chainHolds, getD_false_eq_true, Option.bind_eq_bind, Option.bind_eq_some_iff,
    Option.guard_eq_some', exists_const, Option.pure_def, Option.some_inj]
  constructor
  · rintro ⟨pk, hpk, hkey, message, hmessage, hverify, leaf, hleaf, hclauses⟩
    exact ⟨pk, message, leaf, hpk, hkey, hmessage, hverify, hleaf, hclauses⟩
  · rintro ⟨pk, message, leaf, hpk, hkey, hmessage, hverify, hleaf, hclauses⟩
    exact ⟨pk, hpk, hkey, message, hmessage, hverify, leaf, hleaf, hclauses⟩

theorem migrationHolds_iff {witness : MigrationWitness depth} {inputs : MigrationPublicInputs} :
    migrationHolds witness inputs = true ↔
      ∃ oldLeaf message, commit witness.oldRootPublicKey witness.credentialKey
          witness.oldRootOpening inputs.agora = some oldLeaf ∧
        verifies oldLeaf witness.oldLeafWitness inputs.classRoot = true ∧
        verifiesAbsent (revocationKey oldLeaf) witness.revocationAbsence inputs.revocationRoot =
          true ∧
        inputs.spendNullifier = Nullifier.migration witness.credentialKey oldLeaf inputs.agora ∧
        Signature.migrationCertMessage inputs.agora witness.successorPublicKey = some message ∧
        Signature.verify witness.oldRootPublicKey message witness.migrationCertSignature = true ∧
        commit witness.successorPublicKey witness.credentialKey witness.successorOpening
          inputs.agora = some inputs.successorCommitment := by
  simp only [migrationHolds, getD_false_eq_true, Option.bind_eq_bind, Option.bind_eq_some_iff,
    Option.guard_eq_some', exists_const, Option.pure_def, Option.some_inj, decide_eq_true_eq]
  constructor
  · rintro ⟨oldLeaf, hleaf, hincluded, hrevocation, hspend, message, hmessage, hclauses⟩
    exact ⟨oldLeaf, message, hleaf, hincluded, hrevocation, hspend, hmessage, hclauses⟩
  · rintro ⟨oldLeaf, message, hleaf, hincluded, hrevocation, hspend, hmessage, hclauses⟩
    exact ⟨oldLeaf, hleaf, hincluded, hrevocation, hspend, message, hmessage, hclauses⟩

theorem inboxHolds_iff {witness : InboxWitness} {inputs : InboxPublicInputs} :
    inboxHolds witness inputs = true ↔
      ∃ message, commit witness.rootPublicKey witness.credentialKey witness.rootOpening
          inputs.agora = some inputs.leaf ∧
        Signature.inboxCertMessage inputs.agora inputs.action
          inputs.inboxPublicKey.asBytes.toList = some message ∧
        Signature.verify witness.rootPublicKey message witness.inboxCertSignature = true := by
  simp only [inboxHolds, getD_false_eq_true, Option.bind_eq_bind, Option.bind_eq_some_iff,
    Option.guard_eq_some', exists_const, Option.pure_def, Option.some_inj]
  constructor
  · rintro ⟨hleaf, message, hmessage, hverify⟩
    exact ⟨message, hleaf, hmessage, hverify⟩
  · rintro ⟨message, hleaf, hmessage, hverify⟩
    exact ⟨hleaf, message, hmessage, hverify⟩

-- The clauses of a chain that holds, from the opened leaf on.
theorem clauses_of_chainHolds {witness : ChainWitness depth} {inputs : ChainPublicInputs}
    (hchain : chainHolds witness inputs = true) :
    ∃ leaf, commit witness.rootPublicKey witness.credentialKey witness.rootOpening inputs.agora =
        some leaf ∧
      verifies leaf witness.leafWitness inputs.classRoot = true ∧
      verifiesAbsent (revocationKey leaf) witness.revocationAbsence inputs.revocationRoot = true ∧
      verifiesAbsent (Nullifier.migration witness.credentialKey leaf inputs.agora).asBytes
        witness.spendAbsence inputs.spendRoot = true ∧
      actionHolds witness.epochKey witness.credentialKey inputs.agora inputs.action = true := by
  obtain ⟨_, _, leaf, _, _, _, _, hleaf, hclauses⟩ := chainHolds_iff.1 hchain
  exact ⟨leaf, hleaf, hclauses⟩

theorem clauses_of_migrationHolds {witness : MigrationWitness depth}
    {inputs : MigrationPublicInputs} (hholds : migrationHolds witness inputs = true) :
    ∃ oldLeaf, commit witness.oldRootPublicKey witness.credentialKey witness.oldRootOpening
        inputs.agora = some oldLeaf ∧
      verifies oldLeaf witness.oldLeafWitness inputs.classRoot = true ∧
      verifiesAbsent (revocationKey oldLeaf) witness.revocationAbsence inputs.revocationRoot =
        true ∧
      inputs.spendNullifier = Nullifier.migration witness.credentialKey oldLeaf inputs.agora ∧
      commit witness.successorPublicKey witness.credentialKey witness.successorOpening
        inputs.agora = some inputs.successorCommitment := by
  obtain ⟨oldLeaf, _, hleaf, hincluded, hrevocation, hspend, _, _, hsuccessor⟩ :=
    migrationHolds_iff.1 hholds
  exact ⟨oldLeaf, hleaf, hincluded, hrevocation, hspend, hsuccessor⟩

theorem absent_of_chainHolds {witness : ChainWitness depth} {inputs : ChainPublicInputs}
    {leaf : Commitment} (hchain : chainHolds witness inputs = true)
    (hopens : commit witness.rootPublicKey witness.credentialKey witness.rootOpening inputs.agora =
      some leaf) :
    verifiesAbsent (revocationKey leaf) witness.revocationAbsence inputs.revocationRoot = true ∧
      verifiesAbsent (Nullifier.migration witness.credentialKey leaf inputs.agora).asBytes
        witness.spendAbsence inputs.spendRoot = true := by
  obtain ⟨opened, hopened, _, hrevocation, hspend, _⟩ := clauses_of_chainHolds hchain
  obtain rfl : opened = leaf := Option.some_inj.1 (hopened.symm.trans hopens)
  exact ⟨hrevocation, hspend⟩

theorem absent_of_migrationHolds {witness : MigrationWitness depth}
    {inputs : MigrationPublicInputs} {leaf : Commitment}
    (hholds : migrationHolds witness inputs = true)
    (hopens : commit witness.oldRootPublicKey witness.credentialKey witness.oldRootOpening
      inputs.agora = some leaf) :
    verifiesAbsent (revocationKey leaf) witness.revocationAbsence inputs.revocationRoot = true ∧
      inputs.spendNullifier = Nullifier.migration witness.credentialKey leaf inputs.agora := by
  obtain ⟨opened, hopened, _, hrevocation, hspend, _⟩ := clauses_of_migrationHolds hholds
  obtain rfl : opened = leaf := Option.some_inj.1 (hopened.symm.trans hopens)
  exact ⟨hrevocation, hspend⟩

namespace StubProof

def opening (proof : StubProof depth) : Opening :=
  ⟨proof.rootPublicKey.toList, proof.credentialKey, proof.rootOpening⟩

-- What a verifier hashes to check the two absence clauses and to recompute the leaf.
def queries (proof : StubProof depth) (agora : AgoraId) : List (List F) :=
  proof.revocationAbsence.queries ++ proof.spendAbsence.queries ++ proof.opening.queries agora

-- An accepted proof shows its own leaf absent from both sets.
theorem absent_of_verify {proof : StubProof depth} {inputs : ChainPublicInputs} {leaf : Commitment}
    (hverify : (StubProver depth).verify proof inputs = true)
    (hopens : proof.opening.commit inputs.agora = some leaf) :
    verifiesAbsent (revocationKey leaf) proof.revocationAbsence inputs.revocationRoot = true ∧
      verifiesAbsent (Nullifier.migration proof.credentialKey leaf inputs.agora).asBytes
        proof.spendAbsence inputs.spendRoot = true :=
  absent_of_chainHolds (Bool.and_eq_true_iff.1 hverify).2 hopens

-- No proof that opens a leaf out of the class is accepted.
theorem verify_eq_false {proof : StubProof depth} {inputs : ChainPublicInputs} {leaf : Commitment}
    {opening : Opening} {revocations spends : ExclusionSet depth}
    (hproof : proof.opening.commit inputs.agora = some leaf)
    (hopens : opening.commit inputs.agora = some leaf)
    (hcut : CutOff revocations spends opening leaf inputs.agora)
    (hrevocation : inputs.revocationRoot = revocations.root) (hspend : inputs.spendRoot = spends.root)
    (hfree : Poseidon.CollisionFree (revocations.rootQueries ++ spends.rootQueries ++
      proof.queries inputs.agora ++ opening.queries inputs.agora)) :
    (StubProver depth).verify proof inputs = false := by
  rw [← Bool.not_eq_true]
  intro hverify
  obtain ⟨hunrevoked, hunspent⟩ := absent_of_verify hverify hproof
  rw [hrevocation] at hunrevoked
  rw [hspend] at hunspent
  rcases hcut with hrevoked | hspent
  · have hrefused := ExclusionSet.not_verifiesAbsent_of_mem hrevoked proof.revocationAbsence
      (hfree.mono (by
        intro query; simp only [queries, List.mem_append]; tauto))
    exact absurd (hrefused.symm.trans hunrevoked) (by decide)
  · have hkey := Opening.credentialKey_eq hproof hopens (hfree.mono (by
        intro query; simp only [queries, List.mem_append]; tauto))
    have hsame : Nullifier.migration proof.credentialKey leaf inputs.agora =
        Nullifier.migration opening.credentialKey leaf inputs.agora :=
      migration_congr leaf inputs.agora hkey
    rw [← hsame] at hspent
    have hrefused := ExclusionSet.not_verifiesAbsent_of_mem hspent proof.spendAbsence
      (hfree.mono (by
        intro query; simp only [queries, List.mem_append]; tauto))
    exact absurd (hrefused.symm.trans hunspent) (by decide)

end StubProof

namespace MigrationStubProof

def opening (proof : MigrationStubProof depth) : Opening :=
  ⟨proof.oldRootPublicKey.toList, proof.credentialKey, proof.oldRootOpening⟩

def queries (proof : MigrationStubProof depth) (agora : AgoraId) : List (List F) :=
  proof.revocationAbsence.queries ++ proof.opening.queries agora

-- An accepted proof shows its old leaf unrevoked and names that leaf's spend.
theorem absent_of_verify {proof : MigrationStubProof depth} {inputs : MigrationPublicInputs}
    {leaf : Commitment} (hverify : (StubProver depth).verifyMigration proof inputs = true)
    (hopens : proof.opening.commit inputs.agora = some leaf) :
    verifiesAbsent (revocationKey leaf) proof.revocationAbsence inputs.revocationRoot = true ∧
      inputs.spendNullifier = Nullifier.migration proof.credentialKey leaf inputs.agora :=
  absent_of_migrationHolds (Bool.and_eq_true_iff.1 hverify).2 hopens

-- A proof whose old leaf is out of the class is refused, or names a spend already in the set.
theorem spent_of_verify {proof : MigrationStubProof depth} {inputs : MigrationPublicInputs}
    {leaf : Commitment} {opening : Opening} {revocations spends : ExclusionSet depth}
    (hverify : (StubProver depth).verifyMigration proof inputs = true)
    (hproof : proof.opening.commit inputs.agora = some leaf)
    (hopens : opening.commit inputs.agora = some leaf)
    (hcut : CutOff revocations spends opening leaf inputs.agora)
    (hrevocation : inputs.revocationRoot = revocations.root)
    (hfree : Poseidon.CollisionFree (revocations.rootQueries ++ proof.queries inputs.agora ++
      opening.queries inputs.agora)) :
    truncateKey inputs.spendNullifier.asBytes ∈ spends.keys := by
  obtain ⟨hunrevoked, hspend⟩ := absent_of_verify hverify hproof
  rcases hcut with hrevoked | hspent
  · rw [hrevocation] at hunrevoked
    have hrefused := ExclusionSet.not_verifiesAbsent_of_mem hrevoked proof.revocationAbsence
      (hfree.mono (by
        intro query; simp only [queries, List.mem_append]; tauto))
    exact absurd (hrefused.symm.trans hunrevoked) (by decide)
  · have hkey := Opening.credentialKey_eq hproof hopens (hfree.mono (by
        intro query; simp only [queries, List.mem_append]; tauto))
    have hsame : Nullifier.migration proof.credentialKey leaf inputs.agora =
        Nullifier.migration opening.credentialKey leaf inputs.agora :=
      migration_congr leaf inputs.agora hkey
    rw [hspend, hsame]
    exact hspent

end MigrationStubProof

end Nymora.Circuits
