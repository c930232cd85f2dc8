import Nymora.Circuits.Stub.Soundness

namespace Nymora.Circuits

open Nymora.Core
open Nymora.Crypto
open Nymora.Accumulator

variable [Primitives] {depth : Nat}

-- A commitment is canonical bytes.
theorem Opening.commit_canonical {opening : Opening} {agora : AgoraId} {leaf : Commitment}
    (hopens : opening.commit agora = some leaf) :
    Field.toBytes (Field.fromWitnessBytes leaf.asBytes) = leaf.asBytes := by
  obtain ⟨point, _, rfl⟩ := commit_eq_some hopens
  rw [Field.fromWitnessBytes_toBytes]

-- What deriving a leaf's spend hashes.
def spendInput (key : CredentialKey) (leaf : Commitment) (agora : AgoraId) : List F :=
  [Field.ofNat FieldDomain.SPEND, Field.fromWitnessBytes key.expose,
    Field.fromWitnessBytes leaf.asBytes, Field.fromId agora.asBytes]

-- A migration statement that holds, against whatever roots it names.
structure HeldMigration (depth : Nat) where
  witness : MigrationWitness depth
  inputs : MigrationPublicInputs
  holds : migrationHolds witness inputs = true

namespace HeldMigration

def agora (held : HeldMigration depth) : AgoraId := held.inputs.agora

def old (held : HeldMigration depth) : Opening :=
  ⟨held.witness.oldRootPublicKey, held.witness.credentialKey, held.witness.oldRootOpening⟩

def successor (held : HeldMigration depth) : Opening :=
  ⟨held.witness.successorPublicKey, held.witness.credentialKey, held.witness.successorOpening⟩

theorem opens (held : HeldMigration depth) : (held.old.commit held.agora).isSome := by
  obtain ⟨oldLeaf, hleaf, _⟩ := clauses_of_migrationHolds held.holds
  rw [Opening.commit, old, agora, hleaf]
  rfl

-- The leaf the migration consumes.
def oldLeaf (held : HeldMigration depth) : Commitment := (held.old.commit held.agora).get held.opens

theorem commit_old (held : HeldMigration depth) :
    held.old.commit held.agora = some held.oldLeaf := (Option.some_get held.opens).symm

theorem clauses (held : HeldMigration depth) :
    held.inputs.spendNullifier =
        Nullifier.migration held.witness.credentialKey held.oldLeaf held.agora ∧
      held.successor.commit held.agora = some held.inputs.successorCommitment := by
  obtain ⟨leaf, hleaf, _, _, hspend, hsuccessor⟩ := clauses_of_migrationHolds held.holds
  obtain rfl : leaf = held.oldLeaf := Option.some_inj.1 (hleaf.symm.trans held.commit_old)
  exact ⟨hspend, hsuccessor⟩

def queries (held : HeldMigration depth) : List (List F) :=
  held.old.queries held.agora ++ held.successor.queries held.agora ++
    [spendInput held.witness.credentialKey held.oldLeaf held.agora]

-- The consumed leaf's key element, of whoever opens it.
theorem old_binds {held : HeldMigration depth} {opening : Opening} {agora : AgoraId}
    (hopens : opening.commit agora = some held.oldLeaf)
    (hfree : Poseidon.CollisionFree (held.queries ++ opening.queries agora)) :
    Field.fromWitnessBytes opening.credentialKey.expose =
        Field.fromWitnessBytes held.witness.credentialKey.expose ∧
      Field.fromId agora.asBytes = Field.fromId held.agora.asBytes := by
  have hbinds := Opening.binds hopens held.commit_old rfl (hfree.mono (by
    intro input hinput
    simp only [queries, List.mem_append] at hinput ⊢
    tauto))
  exact hbinds

-- The successor leaf's key element is the same.
theorem successor_binds {held : HeldMigration depth} {opening : Opening} {agora : AgoraId}
    (hopens : opening.commit agora = some held.inputs.successorCommitment)
    (hfree : Poseidon.CollisionFree (held.queries ++ opening.queries agora)) :
    Field.fromWitnessBytes opening.credentialKey.expose =
        Field.fromWitnessBytes held.witness.credentialKey.expose ∧
      Field.fromId agora.asBytes = Field.fromId held.agora.asBytes := by
  have hbinds := Opening.binds hopens held.clauses.2 rfl (hfree.mono (by
    intro input hinput
    simp only [queries, List.mem_append] at hinput ⊢
    tauto))
  exact hbinds

theorem same_counts {held : HeldMigration depth} {successor old : Opening}
    {agora other : AgoraId}
    (hsuccessor : successor.commit agora = some held.inputs.successorCommitment)
    (hold : old.commit other = some held.oldLeaf)
    (hfree : Poseidon.CollisionFree (held.queries ++ successor.queries agora ++ old.queries other))
    (identifier : List UInt8) :
    Nullifier.vouch successor.credentialKey identifier agora =
        Nullifier.vouch old.credentialKey identifier other ∧
      Nullifier.policy successor.credentialKey identifier agora =
        Nullifier.policy old.credentialKey identifier other := by
  obtain ⟨hkey, hagora⟩ := successor_binds hsuccessor (hfree.mono (by
    intro input hinput
    simp only [List.mem_append] at hinput ⊢
    tauto))
  obtain ⟨holdKey, holdAgora⟩ := old_binds hold (hfree.mono (by
    intro input hinput
    simp only [List.mem_append] at hinput ⊢
    tauto))
  unfold Nullifier.vouch Nullifier.policy Nullifier.actionOutput
  rw [hkey, hagora, holdKey, holdAgora]
  exact ⟨rfl, rfl⟩

-- Whoever opens the consumed leaf derives the published spend.
theorem spend_eq {held : HeldMigration depth} {opening : Opening} {agora : AgoraId}
    (hopens : opening.commit agora = some held.oldLeaf)
    (hfree : Poseidon.CollisionFree (held.queries ++ opening.queries agora)) :
    Nullifier.migration opening.credentialKey held.oldLeaf agora = held.inputs.spendNullifier := by
  obtain ⟨hkey, hagora⟩ := old_binds hopens hfree
  rw [held.clauses.1, Nullifier.migration, Nullifier.migration, hkey, hagora]

-- The set the operator keeps once the spend is in, whatever it inserts afterwards.
def spent (held : HeldMigration depth) (spends : ExclusionSet depth) (later : List (Bytes 32)) :
    ExclusionSet depth :=
  later.foldl ExclusionSet.insert (spends.insert held.inputs.spendNullifier.asBytes)

theorem mem_spent (held : HeldMigration depth) (spends : ExclusionSet depth)
    (later : List (Bytes 32)) :
    truncateKey held.inputs.spendNullifier.asBytes ∈ (held.spent spends later).keys := by
  rw [spent, ExclusionSet.mem_keys_foldl_insert, ExclusionSet.mem_keys_insert]
  exact Or.inr (Or.inl rfl)

theorem chain_refused {held : HeldMigration depth} {spends : ExclusionSet depth}
    {later : List (Bytes 32)} {witness : ChainWitness depth} {inputs : ChainPublicInputs}
    (hroot : inputs.spendRoot = (held.spent spends later).root)
    (hopens : witness.opening.commit inputs.agora = some held.oldLeaf)
    (hfree : Poseidon.CollisionFree (held.queries ++ witness.opening.queries inputs.agora ++
      witness.spendAbsence.queries ++ (held.spent spends later).rootQueries)) :
    chainHolds witness inputs = false := by
  rw [← Bool.not_eq_true]
  intro hholds
  obtain ⟨_, habsent⟩ := absent_of_chainHolds hholds hopens
  have hspend := spend_eq hopens (hfree.mono (by
    intro input hinput
    simp only [List.mem_append] at hinput ⊢
    tauto))
  have hsame : Nullifier.migration witness.credentialKey held.oldLeaf inputs.agora =
      held.inputs.spendNullifier := hspend
  rw [hsame, hroot] at habsent
  have hrefused := ExclusionSet.not_verifiesAbsent_of_mem (held.mem_spent spends later)
    witness.spendAbsence (hfree.mono (by
      intro input hinput
      simp only [List.mem_append] at hinput ⊢
      tauto))
  rw [hrefused] at habsent
  exact Bool.false_ne_true habsent

-- One spend names one leaf.
theorem spend_ne {held : HeldMigration depth} {opening : Opening} {agora : AgoraId}
    (hopens : opening.commit agora = some held.inputs.successorCommitment)
    (hdiffers : held.inputs.successorCommitment ≠ held.oldLeaf)
    (hfree : Poseidon.CollisionFree (held.queries ++
      [spendInput opening.credentialKey held.inputs.successorCommitment agora])) :
    Nullifier.migration opening.credentialKey held.inputs.successorCommitment agora ≠
      held.inputs.spendNullifier := by
  intro hsame
  rw [held.clauses.1, ← Digest.asBytes_inj] at hsame
  have hvalues := Field.toBytes_inj.1 hsame
  have hinputs := hfree.inj
    (spendInput opening.credentialKey held.inputs.successorCommitment agora) (by simp)
    (spendInput held.witness.credentialKey held.oldLeaf held.agora) (by simp [queries]) rfl hvalues
  simp only [spendInput, List.cons.injEq, true_and] at hinputs
  apply hdiffers
  rw [← Digest.asBytes_inj, ← Opening.commit_canonical hopens, hinputs.2.1,
    Opening.commit_canonical held.commit_old]

-- Migration carries the lineage's counts over, closes the consumed leaf for good and leaves the
-- successor a spend of its own.
theorem migration_preserves_counts (held : HeldMigration depth) :
    (∀ (successor old : Opening) (agora other : AgoraId),
      successor.commit agora = some held.inputs.successorCommitment →
      old.commit other = some held.oldLeaf →
      Poseidon.CollisionFree
        (held.queries ++ successor.queries agora ++ old.queries other) →
      ∀ identifier,
        Nullifier.vouch successor.credentialKey identifier agora =
            Nullifier.vouch old.credentialKey identifier other ∧
          Nullifier.policy successor.credentialKey identifier agora =
            Nullifier.policy old.credentialKey identifier other) ∧
    (∀ (spends : ExclusionSet depth) (later : List (Bytes 32)) (witness : ChainWitness depth)
        (inputs : ChainPublicInputs),
      inputs.spendRoot = (held.spent spends later).root →
      witness.opening.commit inputs.agora = some held.oldLeaf →
      Poseidon.CollisionFree (held.queries ++ witness.opening.queries inputs.agora ++
        witness.spendAbsence.queries ++ (held.spent spends later).rootQueries) →
      chainHolds witness inputs = false) ∧
    ∀ (successor : Opening) (agora : AgoraId),
      successor.commit agora = some held.inputs.successorCommitment →
      held.inputs.successorCommitment ≠ held.oldLeaf →
      Poseidon.CollisionFree (held.queries ++
        [spendInput successor.credentialKey held.inputs.successorCommitment agora]) →
      Nullifier.migration successor.credentialKey held.inputs.successorCommitment agora ≠
        held.inputs.spendNullifier := by
  refine ⟨?_, ?_, ?_⟩
  · intro successor old agora other hsuccessor hold hfree
    exact same_counts hsuccessor hold hfree
  · intro spends later witness inputs hroot hopens hfree
    exact chain_refused hroot hopens hfree
  · intro successor agora hopens hdiffers hfree
    exact spend_ne hopens hdiffers hfree

end HeldMigration

end Nymora.Circuits

namespace Nymora.Circuits.Lineage.Sample

open Nymora.Core
open Nymora.Crypto
open Nymora.Accumulator
open Nymora.Circuits.Soundness.Sample
open scoped Nymora.Crypto.Reference

def successorKey : Bytes 32 :=
  (Signature.publicKey (Bytes.ofNatLe 32 9)).get (by decide +kernel)

def successorOpening : Opening :=
  ⟨successorKey.toList, respelled, .new (Bytes.ofNatLe 32 10)⟩

def successorLeaf : Commitment := (successorOpening.commit agora).get (by decide +kernel)

def migrationCertificate : Bytes 64 :=
  ((Signature.migrationCertMessage agora successorKey.toList).bind
    (Signature.sign rootSecret)).get (by decide +kernel)

theorem member_stands : (members.witness 0).isSome := by decide +kernel

def moving : HeldMigration 1 where
  witness := {
    oldRootPublicKey := rootKey.toList
    oldRootOpening := rootOpening
    credentialKey := credential
    oldLeafWitness := (members.witness 0).get member_stands
    migrationCertSignature := migrationCertificate.toList
    successorPublicKey := successorKey.toList
    successorOpening := .new (Bytes.ofNatLe 32 10)
    revocationAbsence := absence }
  inputs := ⟨agora, members.root, (ExclusionSet.new : ExclusionSet 1).root,
    Nullifier.migration credential member agora, successorLeaf⟩
  holds := by decide +kernel

-- The successor, its key respelled, vouches as before; the old device is refused; and the
-- successor's own spend is still to come.
theorem migration_preserves_counts_moved :
    Nullifier.vouch respelled [1] agora = Nullifier.vouch credential [1] agora ∧
      chainHolds (witness credential)
        { publics (.VerificationAccess []) with
          spendRoot := (moving.spent ExclusionSet.new [Bytes.replicate 32 1]).root } = false ∧
      Nullifier.migration respelled successorLeaf agora ≠
        Nullifier.migration credential member agora := by
  obtain ⟨hcounts, hrefused, hspend⟩ := HeldMigration.migration_preserves_counts moving
  have hsuccessor : successorOpening.commit agora = some successorLeaf := by decide +kernel
  have hold : (witness credential).opening.commit agora = some moving.oldLeaf := by
    decide +kernel
  refine ⟨?_, ?_, ?_⟩
  · exact (hcounts successorOpening (witness credential).opening agora agora hsuccessor hold
      (by decide +kernel) [1]).1
  · exact hrefused ExclusionSet.new [Bytes.replicate 32 1] (witness credential) _ rfl hold
      (by decide +kernel)
  · exact hspend successorOpening agora hsuccessor (by decide +kernel) (by decide +kernel)

end Nymora.Circuits.Lineage.Sample
