import Nymora.Core.Handoff.Theorems
import Nymora.Protocol.Credential.Creation
import Nymora.Protocol.Proving.Theorems

namespace Nymora.Protocol

open Nymora.Core
open Nymora.Crypto
open Nymora.Accumulator
open Nymora.Circuits
open Nymora.Proofs
open Nymora.Ports
open Credential
open Method
open Runs

variable [Primitives] {agora : AgoraId} {oldRoot newRoot : AgoraId → Bytes 32}

section OldDevice

variable {keyStore : KeyStore} {successorPublicKey : List UInt8} {buffers : MigrationBuffers}
  {storage after : SecureStorage} {written : List UInt8}

-- What a handoff is worth: it opens the old leaf, under a root that signed both certificates.
structure Authorizes (root : Bytes 32) (agora : AgoraId) (successor : List UInt8)
    (handoff : MigrationHandoff) (oldLeaf : Commitment) (inbox : InboxPublicKey) : Prop where
  credentialKey : handoff.credentialKey.expose.toNatLe < fieldOrder
  rootOpening : handoff.rootOpening.expose.toNatLe < fieldOrder
  rootPublicKey : handoff.rootPublicKey = root.toList
  point : (Primitives.fromBytes root).isSome
  opens : commit handoff.rootPublicKey handoff.credentialKey handoff.rootOpening agora =
    some oldLeaf
  migration : SignsMessage root (Signature.migrationCertMessage agora successor)
    handoff.migrationCert
  retirement : SignsMessage root
    (Signature.inboxCertMessage agora .Retire inbox.asBytes.toList) handoff.retireCert

end OldDevice

section Successor

variable {root : Bytes 32} {successor : List UInt8} {handoff : MigrationHandoff}
  {oldLeaf commitment : Commitment} {inbox : InboxPublicKey} {opening : RootOpening} {depth : Nat}
  {roots : EpochRoots} {leafWitness : Witness depth} {revocationAbsence : AbsenceWitness depth}

-- What the successor proves its migration by.
def migrationWitness (handoff : MigrationHandoff) (leafWitness : Witness depth)
    (successor : List UInt8) (opening : RootOpening) (revocationAbsence : AbsenceWitness depth) :
    MigrationWitness depth where
  oldRootPublicKey := handoff.rootPublicKey
  oldRootOpening := handoff.rootOpening
  credentialKey := handoff.credentialKey
  oldLeafWitness := leafWitness
  migrationCertSignature := handoff.migrationCert
  successorPublicKey := successor
  successorOpening := opening
  revocationAbsence := revocationAbsence

omit [Primitives] in
-- What the successor asks to retire its predecessor's inbox by.
def retirementWitness (handoff : MigrationHandoff) : InboxWitness where
  rootPublicKey := handoff.rootPublicKey
  rootOpening := handoff.rootOpening
  credentialKey := handoff.credentialKey
  inboxCertSignature := handoff.retireCert

theorem Authorizes.migrationHolds
    (hauthorizes : Authorizes root agora successor handoff oldLeaf inbox)
    (hsuccessor : commit successor handoff.credentialKey opening agora = some commitment)
    (hincluded : verifies oldLeaf leafWitness roots.policyClass = true)
    (hunrevoked : verifiesAbsent (revocationKey oldLeaf) revocationAbsence roots.revocation =
      true) :
    migrationHolds (migrationWitness handoff leafWitness successor opening revocationAbsence)
      ⟨agora, roots.policyClass, roots.revocation,
        Nullifier.migration handoff.credentialKey oldLeaf agora, commitment⟩ = true := by
  obtain ⟨message, hmessage, hverify⟩ := hauthorizes.migration
  rw [← hauthorizes.rootPublicKey] at hverify
  exact migrationHolds_iff.2 ⟨oldLeaf, message, hauthorizes.opens, hincluded, hunrevoked, rfl,
    hmessage, hverify, hsuccessor⟩

theorem Authorizes.inboxHolds
    (hauthorizes : Authorizes root agora successor handoff oldLeaf inbox) :
    inboxHolds (retirementWitness handoff) ⟨agora, oldLeaf, inbox, .Retire⟩ = true := by
  obtain ⟨message, hmessage, hverify⟩ := hauthorizes.retirement
  rw [← hauthorizes.rootPublicKey] at hverify
  exact inboxHolds_iff.2 ⟨message, hauthorizes.opens, hmessage, hverify⟩

-- The real backend can take the successor's migration.
theorem Authorizes.converts
    (hauthorizes : Authorizes root agora successor handoff oldLeaf inbox)
    (hopening : opening.expose.toNatLe < fieldOrder)
    (hpath : (Plonk.path leafWitness).isSome)
    (hrevocation : (Plonk.absence revocationAbsence).isSome) :
    (Plonk.migrationWitness
      (migrationWitness handoff leafWitness successor opening revocationAbsence)).isSome := by
  obtain ⟨message, hmessage, hverify⟩ := hauthorizes.migration
  obtain ⟨rootPoint, hroot⟩ := Option.isSome_iff_exists.1 hauthorizes.point
  have holdRoot : Plonk.decodePoint handoff.rootPublicKey = some rootPoint := by
    simp [Plonk.decodePoint, hauthorizes.rootPublicKey, hroot]
  obtain ⟨successorPoint, hsuccessor⟩ :=
    Option.isSome_iff_exists.1 (decodePoint_of_migrationCertMessage hmessage)
  obtain ⟨certificate, hcertificate⟩ :=
    Option.isSome_iff_exists.1 (decodeSignature_of_verify hverify)
  obtain ⟨credentialKey, hcredential⟩ :=
    Option.isSome_iff_exists.1 (decode_isSome hauthorizes.credentialKey)
  obtain ⟨oldOpening, holdOpening⟩ :=
    Option.isSome_iff_exists.1 (decode_isSome hauthorizes.rootOpening)
  obtain ⟨newOpening, hnewOpening⟩ := Option.isSome_iff_exists.1 (decode_isSome hopening)
  obtain ⟨path, hpath⟩ := Option.isSome_iff_exists.1 hpath
  obtain ⟨revocation, hrevocation⟩ := Option.isSome_iff_exists.1 hrevocation
  simp [Plonk.migrationWitness, migrationWitness, holdRoot, hsuccessor, hcertificate, hcredential,
    holdOpening, hnewOpening, hpath, hrevocation]

end Successor

end Nymora.Protocol

namespace Nymora.Protocol.Proving.Migration.Sample

open Nymora.Core
open Nymora.Crypto
open Nymora.Circuits
open Nymora.Circuits.Soundness.Sample (absence)
open Nymora.Proofs
open Nymora.Ports
open Nymora.Ports.Software.Sample (seeded)
open Nymora.Protocol.Proving.Sample
open Credential
open Credential.Expiry.Sample (agora blank)
open Runs
open scoped Nymora.Crypto.Reference

-- Another device's store, and the root it creates for the successor.
def elsewhere : SoftwareKeyStore := ⟨Bytes.replicate 32 0x5b⟩

def successor : List UInt8 := (elsewhere.root agora).toList

def buffers : MigrationBuffers := ⟨32, 64, 64, 281⟩

-- What the successor makes of a handoff, on a device of its own.
def complete (handoff : MigrationHandoff) : Option (Migrated × SecureStorage) :=
  match completeMigration agora handoff successor (Bytes.replicate 32 21) (Bytes.replicate 32 22)
      ⟨blank, []⟩ with
  | .ok migrated later => some (migrated, later)
  | .error _ _ => none

end Nymora.Protocol.Proving.Migration.Sample
