import Nymora.Lib.Bits
import Nymora.Lib.Synthesis
import Nymora.Plonk.Evaluate
import Nymora.Plonk.Gadgets

namespace Nymora.Plonk

open Nymora.Core
open Nymora.Crypto

variable [Primitives]

-- The rest of the circuit library: native arithmetic, then the Jubjub chip.
structure CircuitLib extends ZkStdLib where
  assignAsPublicInput : F → Synthesis F F
  assign : F → Constrained F
  assignFixed : F → Constrained F
  assignManyNative : List F → Constrained (List F)
  assignManyBits : List Bool → Constrained (List Bool)
  poseidon : List F → Constrained F
  condSwap : Bool → F → F → Constrained (F × F)
  select : Bool → F → F → Constrained F
  isEqualToFixed : F → F → Constrained Bool
  or : List Bool → Constrained Bool
  addConstant : F → F → Constrained F
  mul : F → F → Constrained F
  assertEqual : F → F → Constrained Unit
  assertEqualToFixed : F → F → Constrained Unit
  assertBitEqualToFixed : Bool → Bool → Constrained Unit
  lowerThan : F → F → Nat → Constrained Bool
  assignedToLeBits : F → Constrained (List Bool)
  assignedFromLeBits : List Bool → Constrained F
  assignedToLeBytes : F → Constrained (Bytes 32)
  assignPoint : SubgroupPoint → Constrained SubgroupPoint
  assignFixedPoint : SubgroupPoint → Constrained SubgroupPoint
  assignScalar : JubjubScalar → Constrained JubjubScalar
  xCoordinate : SubgroupPoint → F
  yCoordinate : SubgroupPoint → F
  msm : List JubjubScalar → List SubgroupPoint → Constrained SubgroupPoint
  add : SubgroupPoint → SubgroupPoint → Constrained SubgroupPoint
  assertEqualPoint : SubgroupPoint → SubgroupPoint → Constrained Unit

-- The bits of the circuit field.
def NUM_BITS : Nat := 255

-- What the library documents of each. A decomposition is of the canonical integer; the order is
-- of integers the comparison itself bounds; a multiplication is of one term.
structure CircuitLib.Documented (stdLib : CircuitLib) : Prop
    extends ZkStdLib.Documented stdLib.toZkStdLib where
  assignAsPublicInput : ∀ value, (stdLib.assignAsPublicInput value).Publishes value
  assign : ∀ value, (stdLib.assign value).Computes value
  assignFixed : ∀ value, (stdLib.assignFixed value).Computes value
  assignManyNative : ∀ values, (stdLib.assignManyNative values).Computes values
  assignManyBits : ∀ bits, (stdLib.assignManyBits bits).Computes bits
  poseidon : ∀ inputs, (stdLib.poseidon inputs).Computes (Poseidon.hash inputs)
  condSwap : ∀ cond x y,
    (stdLib.condSwap cond x y).Computes (if cond then (y, x) else (x, y))
  select : ∀ cond x y, (stdLib.select cond x y).Computes (if cond then x else y)
  isEqualToFixed : ∀ x constant,
    (stdLib.isEqualToFixed x constant).Computes (decide (x = constant))
  or : ∀ bits, (stdLib.or bits).Computes (bits.any id)
  addConstant : ∀ x constant, (stdLib.addConstant x constant).Computes (x + constant)
  mul : ∀ x y, (stdLib.mul x y).Computes (x * y)
  assertEqual : ∀ x y, (stdLib.assertEqual x y).Asserts (x = y)
  assertEqualToFixed : ∀ x constant, (stdLib.assertEqualToFixed x constant).Asserts (x = constant)
  assertBitEqualToFixed : ∀ bit constant,
    (stdLib.assertBitEqualToFixed bit constant).Asserts (bit = constant)
  lowerThan : ∀ x y bound, (stdLib.lowerThan x y bound).Yields
    (x.val < 2 ^ bound ∧ y.val < 2 ^ bound) (decide (x.val < y.val))
  assignedToLeBits : ∀ value,
    (stdLib.assignedToLeBits value).Computes (BitString.ofNat NUM_BITS value.val)
  assignedFromLeBits : ∀ bits,
    (stdLib.assignedFromLeBits bits).Computes (Field.ofNat (BitString.toNat bits))
  assignedToLeBytes : ∀ value, (stdLib.assignedToLeBytes value).Computes (Field.toBytes value)
  assignPoint : ∀ point, (stdLib.assignPoint point).Computes point
  assignFixedPoint : ∀ point, (stdLib.assignFixedPoint point).Computes point
  assignScalar : ∀ scalar, (stdLib.assignScalar scalar).Computes scalar
  xCoordinate : ∀ point, stdLib.xCoordinate point = (Primitives.coordinates point).1
  yCoordinate : ∀ point, stdLib.yCoordinate point = (Primitives.coordinates point).2
  msm : ∀ scalar base, (stdLib.msm [scalar] [base]).Computes (Primitives.mul base scalar)
  add : ∀ left right, (stdLib.add left right).Computes (Primitives.add left right)
  assertEqualPoint : ∀ left right, (stdLib.assertEqualPoint left right).Asserts (left = right)

-- An assigned authentication path.
structure AssignedPath where
  siblings : List F
  bits : List Bool

-- An assigned certificate signature.
structure AssignedSignature where
  r : SubgroupPoint
  s : JubjubScalar

section

variable (stdLib : CircuitLib) {depth : Nat}

def assignPath (path : Path depth) : Constrained AssignedPath := do
  let siblings ← stdLib.assignManyNative path.siblings
  let bits ← stdLib.assignManyBits path.bits
  return ⟨siblings, bits⟩

-- Folds a leaf up an assigned path.
def merkleRoot (leaf : F) (path : AssignedPath) : Constrained F :=
  (path.siblings.zip path.bits).foldlM (fun current level => do
    let children ← stdLib.condSwap level.2 current level.1
    stdLib.poseidon [children.1, children.2]) leaf

-- The canonical bit decomposition, its low bits recomposed.
def truncateKeyGadget (value : F) : Constrained F := do
  let bits ← stdLib.assignedToLeBits value
  stdLib.assignedFromLeBits (bits.take KEY_BITS)

def gapTag : Constrained F := stdLib.assignFixed (Field.ofNat FieldDomain.GAP)

-- Constrains a key absent from the exclusion set under a root.
def assertAbsent (key : F) (witness : AbsenceWitness depth) (root : F) : Constrained Unit := do
  let low ← stdLib.assign witness.low
  let high ← stdLib.assign witness.high
  let path ← assignPath stdLib witness.path
  -- The comparison bounds every operand, the witness's own included.
  let t ← truncateKeyGadget stdLib key
  let below ← stdLib.lowerThan low t KEY_BITS
  stdLib.assertBitEqualToFixed below true
  let above ← stdLib.lowerThan t high KEY_BITS
  stdLib.assertBitEqualToFixed above true
  let tag ← gapTag stdLib
  let gap ← stdLib.poseidon [tag, low, high]
  let computed ← merkleRoot stdLib gap path
  stdLib.assertEqual computed root

def revocationEntryGadget (leaf : F) : Constrained F := do
  let revokeTag ← stdLib.assignFixed (Field.ofNat FieldDomain.REVOKE)
  stdLib.poseidon [revokeTag, leaf]

-- Constrains an action to the two inbox actions.
def assertInboxAction (action : F) : Constrained Unit := do
  let shifted ← stdLib.addConstant action (-Field.ofNat 1)
  let product ← stdLib.mul action shifted
  stdLib.assertEqualToFixed product (Field.ofNat 0)

def assignSignature (signature : Signature) : Constrained AssignedSignature := do
  let r ← stdLib.assignPoint signature.r
  let s ← stdLib.assignScalar signature.s
  return ⟨r, s⟩

-- Verifies the equation `S·G = R + e·PK`.
def verifyCertificate (signature : AssignedSignature) (pk : SubgroupPoint) (message : F) :
    Constrained Unit := do
  let eField ← stdLib.poseidon [stdLib.xCoordinate signature.r, stdLib.yCoordinate signature.r,
    stdLib.xCoordinate pk, stdLib.yCoordinate pk, message]
  let eBytes ← stdLib.assignedToLeBytes eField
  let e ← stdLib.scalarFromLeBytes eBytes
  let generator ← stdLib.assignFixedPoint Primitives.generator
  let sG ← stdLib.msm [signature.s] [generator]
  let ePk ← stdLib.msm [e] [pk]
  let rPlusEPk ← stdLib.add signature.r ePk
  stdLib.assertEqualPoint sG rPlusEPk

-- Constrains a tag to the five action tags.
def assertActionTag (tag : F) : Constrained Unit := do
  let product ← [1, 2, 3, 4].foldlM (fun product shift => do
    let term ← stdLib.addConstant tag (-Field.ofNat shift)
    stdLib.mul product term) tag
  stdLib.assertEqualToFixed product (Field.ofNat 0)

-- Whether the derivation key is the epoch key, and whether the action derives nothing.
def actionSelectors (tag : F) : Constrained (Bool × Bool) := do
  let isAuthorship ← stdLib.isEqualToFixed tag (Field.ofNat FieldDomain.ActionTag.AUTHORSHIP)
  let isLiveAuth ← stdLib.isEqualToFixed tag (Field.ofNat FieldDomain.ActionTag.LIVE_AUTH)
  let usesEpochKey ← stdLib.or [isAuthorship, isLiveAuth]
  let derivesNothing ← stdLib.isEqualToFixed tag (Field.ofNat FieldDomain.ActionTag.VERIFICATION)
  return (usesEpochKey, derivesNothing)

end

-- A statement as the proving library takes it: its public inputs in their order, and its circuit
-- over assigned inputs and witness.
structure Relation (Instance Witness : Type) where
  formatInstance : Instance → List F
  circuit : CircuitLib → Instance → Witness → Synthesis F Unit

def chainRelation (depth : Nat) : Relation ChainInstance (ChainWitness depth) where
  formatInstance inst := [inst.agora, inst.epoch, inst.classRoot, inst.revocationRoot,
    inst.spendRoot, inst.actionTag, inst.actionContext, inst.actionOutput]
  circuit stdLib inst witness := do
    let agora ← stdLib.assignAsPublicInput inst.agora
    let epoch ← stdLib.assignAsPublicInput inst.epoch
    let classRoot ← stdLib.assignAsPublicInput inst.classRoot
    let revocationRoot ← stdLib.assignAsPublicInput inst.revocationRoot
    let spendRoot ← stdLib.assignAsPublicInput inst.spendRoot
    let actionTag ← stdLib.assignAsPublicInput inst.actionTag
    let actionContext ← stdLib.assignAsPublicInput inst.actionContext
    let actionOutput ← stdLib.assignAsPublicInput inst.actionOutput
    liftM (do
      let epochKey ← assignCanonicalScalar stdLib.toZkStdLib witness.epochKeyBytes
      let epochPublicKey ← stdLib.assignPoint witness.epochPublicKey
      let certificate ← assignSignature stdLib witness.epochCertificate
      let credentialKey ← stdLib.assign witness.credentialKey
      let rootOpening ← stdLib.assign witness.rootOpening
      let rootPublicKey ← stdLib.assignPoint witness.rootPublicKey
      let classPath ← assignPath stdLib witness.classPath
      -- Correspondence: the epoch public key is the public counterpart of the epoch key.
      let generator ← stdLib.assignFixedPoint Primitives.generator
      let derivedEpochPk ← stdLib.msm [epochKey.1] [generator]
      stdLib.assertEqualPoint derivedEpochPk epochPublicKey
      -- The certificate, over a payload reconstructed from the statement's inputs.
      let certDomain ← stdLib.assignFixed (Field.ofNat FieldDomain.EPOCH_CERT)
      let payload ← stdLib.poseidon [certDomain, agora, epoch, stdLib.xCoordinate epochPublicKey,
        stdLib.yCoordinate epochPublicKey]
      verifyCertificate stdLib certificate rootPublicKey payload
      -- The leaf opens from the secrets and sits under the class root.
      let leafDomain ← stdLib.assignFixed (Field.ofNat FieldDomain.LEAF)
      let leaf ← stdLib.poseidon [leafDomain, stdLib.xCoordinate rootPublicKey,
        stdLib.yCoordinate rootPublicKey, credentialKey, rootOpening, agora]
      let computedClassRoot ← merkleRoot stdLib leaf classPath
      stdLib.assertEqual computedClassRoot classRoot
      -- Not revoked, not migrated away.
      let revocationEntry ← revocationEntryGadget stdLib leaf
      assertAbsent stdLib revocationEntry witness.revocationAbsence revocationRoot
      let spendDomain ← stdLib.assignFixed (Field.ofNat FieldDomain.SPEND)
      let spend ← stdLib.poseidon [spendDomain, credentialKey, leaf, agora]
      assertAbsent stdLib spend witness.spendAbsence spendRoot
      -- The action's own output.
      assertActionTag stdLib actionTag
      let selectors ← actionSelectors stdLib actionTag
      let key ← stdLib.select selectors.1 epochKey.2 credentialKey
      let actionDomain ← stdLib.assignFixed (Field.ofNat FieldDomain.ACTION)
      let derived ← stdLib.poseidon [actionDomain, actionTag, key, actionContext, agora]
      let zero ← stdLib.assignFixed (Field.ofNat 0)
      let expected ← stdLib.select selectors.2 zero derived
      stdLib.assertEqual expected actionOutput)

def migrationRelation (depth : Nat) : Relation MigrationInstance (MigrationWitness depth) where
  formatInstance inst := [inst.agora, inst.classRoot, inst.revocationRoot, inst.spendNullifier,
    inst.successorCommitment]
  circuit stdLib inst witness := do
    let agora ← stdLib.assignAsPublicInput inst.agora
    let classRoot ← stdLib.assignAsPublicInput inst.classRoot
    let revocationRoot ← stdLib.assignAsPublicInput inst.revocationRoot
    let spendNullifier ← stdLib.assignAsPublicInput inst.spendNullifier
    let successorCommitment ← stdLib.assignAsPublicInput inst.successorCommitment
    liftM (do
      let oldRootPublicKey ← stdLib.assignPoint witness.oldRootPublicKey
      let oldRootOpening ← stdLib.assign witness.oldRootOpening
      let credentialKey ← stdLib.assign witness.credentialKey
      let oldClassPath ← assignPath stdLib witness.oldClassPath
      let certificate ← assignSignature stdLib witness.migrationCertificate
      let successorPublicKey ← stdLib.assignPoint witness.successorPublicKey
      let successorOpening ← stdLib.assign witness.successorOpening
      -- The old leaf opens with the carried key and sits under the class root.
      let leafDomain ← stdLib.assignFixed (Field.ofNat FieldDomain.LEAF)
      let oldLeaf ← stdLib.poseidon [leafDomain, stdLib.xCoordinate oldRootPublicKey,
        stdLib.yCoordinate oldRootPublicKey, credentialKey, oldRootOpening, agora]
      let computedRoot ← merkleRoot stdLib oldLeaf oldClassPath
      stdLib.assertEqual computedRoot classRoot
      let revocationEntry ← revocationEntryGadget stdLib oldLeaf
      assertAbsent stdLib revocationEntry witness.revocationAbsence revocationRoot
      -- The public spend is the nullifier consuming this leaf.
      let spendDomain ← stdLib.assignFixed (Field.ofNat FieldDomain.SPEND)
      let spend ← stdLib.poseidon [spendDomain, credentialKey, oldLeaf, agora]
      stdLib.assertEqual spend spendNullifier
      -- The old root authorized this successor.
      let succX := stdLib.xCoordinate successorPublicKey
      let succY := stdLib.yCoordinate successorPublicKey
      let certDomain ← stdLib.assignFixed (Field.ofNat FieldDomain.MIGRATION_CERT)
      let payload ← stdLib.poseidon [certDomain, agora, succX, succY]
      verifyCertificate stdLib certificate oldRootPublicKey payload
      -- The successor commitment carries the same key.
      let successorLeaf ← stdLib.poseidon [leafDomain, succX, succY, credentialKey,
        successorOpening, agora]
      stdLib.assertEqual successorLeaf successorCommitment)

def inboxRelation : Relation InboxInstance InboxWitness where
  formatInstance inst := [inst.agora, inst.leaf, inst.inboxKey, inst.action]
  circuit stdLib inst witness := do
    let agora ← stdLib.assignAsPublicInput inst.agora
    let leaf ← stdLib.assignAsPublicInput inst.leaf
    let inboxKey ← stdLib.assignAsPublicInput inst.inboxKey
    let action ← stdLib.assignAsPublicInput inst.action
    liftM (do
      let rootPublicKey ← stdLib.assignPoint witness.rootPublicKey
      let rootOpening ← stdLib.assign witness.rootOpening
      let credentialKey ← stdLib.assign witness.credentialKey
      let certificate ← assignSignature stdLib witness.certificate
      -- The secrets open exactly the public leaf.
      let leafDomain ← stdLib.assignFixed (Field.ofNat FieldDomain.LEAF)
      let opened ← stdLib.poseidon [leafDomain, stdLib.xCoordinate rootPublicKey,
        stdLib.yCoordinate rootPublicKey, credentialKey, rootOpening, agora]
      stdLib.assertEqual opened leaf
      assertInboxAction stdLib action
      let certDomain ← stdLib.assignFixed (Field.ofNat FieldDomain.INBOX_CERT)
      let payload ← stdLib.poseidon [certDomain, agora, action, inboxKey]
      verifyCertificate stdLib certificate rootPublicKey payload)

-- What a proof for a public instance attests: some assignment of the circuit's cells, its
-- published ones those of the instance, under which every constraint holds.
def Relation.Accepts {Instance Witness : Type} (relation : Relation Instance Witness)
    (stdLib : CircuitLib) (inst : Instance) (witness : Witness) : Prop :=
  ∃ assigned, (relation.circuit stdLib assigned witness).satisfied ∧
    (relation.circuit stdLib assigned witness).published = relation.formatInstance inst

end Nymora.Plonk
