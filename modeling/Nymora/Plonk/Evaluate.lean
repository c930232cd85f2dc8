import Nymora.Plonk.Statement
import Nymora.Core.Domain

namespace Nymora.Plonk

open Nymora.Core
open Nymora.Crypto

def KEY_BITS : Nat := 253

-- Keeps the low 253 bits of the canonical integer.
def truncateKey (value : F) : F :=
  ⟨((Field.toBytes value).modify 31 (· &&& 0x1f)).toNatLe, by
    have hmask := (Field.toBytes value).toNatLe_modify_top 5 (by decide)
    rw [show ((Field.toBytes value).modify 31 (· &&& 0x1f)).toNatLe =
      (Field.toBytes value).toNatLe % 2 ^ 253 from hmask]
    exact Nat.lt_trans (Nat.mod_lt _ (by decide)) (by decide)⟩

-- Orders field elements by their canonical little-endian integer value.
def leCmp (a b : F) : Ordering :=
  compare (Field.toBytes a).reverse (Field.toBytes b).reverse

theorem truncateKey_val (value : F) : (truncateKey value).val = value.val % 2 ^ 253 := by
  have hmask := (Field.toBytes value).toNatLe_modify_top 5 (by decide)
  rw [Field.toNatLe_toBytes] at hmask
  exact hmask

theorem leCmp_eq (a b : F) : leCmp a b = compare a.val b.val := by
  rw [leCmp, Bytes.compare_reverse, Field.toNatLe_toBytes, Field.toNatLe_toBytes]

theorem leCmp_eq_lt {a b : F} : leCmp a b = .lt ↔ a.val < b.val := by
  rw [leCmp_eq]
  exact Nat.compare_eq_lt

-- The gap leaf a bound pair hashes to.
def gapLeaf (low high : F) : F := Poseidon.hash [Field.ofNat FieldDomain.GAP, low, high]

-- Whether a witness proves a key absent under a root.
def verifiesAbsent {depth : Nat} (key : F) (witness : AbsenceWitness depth) (root : F) : Bool :=
  let t := truncateKey key
  decide (leCmp witness.low t = .lt) && decide (leCmp t witness.high = .lt) &&
    decide (witness.path.root (gapLeaf witness.low witness.high) = root)

section

variable [Primitives]

def publicKey (sk : JubjubScalar) : SubgroupPoint := Primitives.mul Primitives.generator sk

-- The equation `S·G = R + e·PK`, which every evaluator writes out over its own certificate.
def verify (signature : Signature) (pk : SubgroupPoint) (message : F) : Bool :=
  let e := Signature.reduce (Signature.challenge signature.r pk message)
  let lhs := publicKey signature.s
  let rhs := Primitives.add signature.r (Primitives.mul pk e)
  decide (lhs = rhs)

-- The leaf the secrets open.
def openedLeaf (rootPublicKey : SubgroupPoint) (credentialKey rootOpening agora : F) : F :=
  let (x, y) := Primitives.coordinates rootPublicKey
  Poseidon.hash [Field.ofNat FieldDomain.LEAF, x, y, credentialKey, rootOpening, agora]

def revocationEntry (leaf : F) : F := Poseidon.hash [Field.ofNat FieldDomain.REVOKE, leaf]

def spendOf (credentialKey leaf agora : F) : F :=
  Poseidon.hash [Field.ofNat FieldDomain.SPEND, credentialKey, leaf, agora]

-- The action clause: the tag in range, the key selected by the tag, the output as derived, or
-- zero for verification access.
def satisfiesAction (epochKey : JubjubScalar) (credentialKey : F) (inst : ChainInstance) : Bool :=
  match (List.range 5).find? fun v => inst.actionTag = Field.ofNat v with
  | none => false
  | some tagValue =>
    let usesEpochKey := tagValue = FieldDomain.ActionTag.AUTHORSHIP ∨
      tagValue = FieldDomain.ActionTag.LIVE_AUTH
    let key := if usesEpochKey then Signature.scalarAsField epochKey else credentialKey
    let derived := Poseidon.hash [Field.ofNat FieldDomain.ACTION, inst.actionTag, key,
      inst.actionContext, inst.agora]
    let expected := if tagValue = FieldDomain.ActionTag.VERIFICATION then Field.ofNat 0 else derived
    decide (expected = inst.actionOutput)

-- Whether the chain statement holds for this witness against these inputs.
def satisfiesChain {depth : Nat} (witness : ChainWitness depth) (inst : ChainInstance) : Bool :=
  Option.getD (do
    let epochKey ← Signature.scalarFromBytes witness.epochKeyBytes
    guard (publicKey epochKey = witness.epochPublicKey)
    let (epkX, epkY) := Primitives.coordinates witness.epochPublicKey
    let payload := Poseidon.hash
      [Field.ofNat FieldDomain.EPOCH_CERT, inst.agora, inst.epoch, epkX, epkY]
    guard (verify witness.epochCertificate witness.rootPublicKey payload)
    let leaf := openedLeaf witness.rootPublicKey witness.credentialKey witness.rootOpening inst.agora
    guard (witness.classPath.root leaf = inst.classRoot)
    guard (verifiesAbsent (revocationEntry leaf) witness.revocationAbsence inst.revocationRoot)
    guard (verifiesAbsent (spendOf witness.credentialKey leaf inst.agora) witness.spendAbsence
      inst.spendRoot)
    return satisfiesAction epochKey witness.credentialKey inst : Option Bool) false

-- Whether the migration statement holds for this witness against these inputs.
def satisfiesMigration {depth : Nat} (witness : MigrationWitness depth)
    (inst : MigrationInstance) : Bool :=
  Option.getD (do
    let oldLeaf := openedLeaf witness.oldRootPublicKey witness.credentialKey witness.oldRootOpening
      inst.agora
    guard (witness.oldClassPath.root oldLeaf = inst.classRoot)
    guard (verifiesAbsent (revocationEntry oldLeaf) witness.revocationAbsence inst.revocationRoot)
    guard (spendOf witness.credentialKey oldLeaf inst.agora = inst.spendNullifier)
    let (succX, succY) := Primitives.coordinates witness.successorPublicKey
    let payload := Poseidon.hash
      [Field.ofNat FieldDomain.MIGRATION_CERT, inst.agora, succX, succY]
    guard (verify witness.migrationCertificate witness.oldRootPublicKey payload)
    let successorLeaf := openedLeaf witness.successorPublicKey witness.credentialKey
      witness.successorOpening inst.agora
    return decide (successorLeaf = inst.successorCommitment) : Option Bool) false

-- Whether the inbox statement holds for this witness against these inputs.
def satisfiesInbox (witness : InboxWitness) (inst : InboxInstance) : Bool :=
  Option.getD (do
    let leaf := openedLeaf witness.rootPublicKey witness.credentialKey witness.rootOpening inst.agora
    guard (leaf = inst.leaf)
    guard (inst.action = Field.ofNat FieldDomain.InboxAction.RETIRE ∨
      inst.action = Field.ofNat FieldDomain.InboxAction.RENEW)
    let payload := Poseidon.hash
      [Field.ofNat FieldDomain.INBOX_CERT, inst.agora, inst.action, inst.inboxKey]
    return verify witness.certificate witness.rootPublicKey payload : Option Bool) false

end

end Nymora.Plonk
