import Nymora.Proofs.Action.Theorems
import Nymora.Protocol.Credential.Device

namespace Nymora.Protocol

open Nymora.Core
open Nymora.Crypto
open Nymora.Accumulator
open Nymora.Circuits
open Nymora.Proofs
open Nymora.Ports
open Credential
open Method
open Runs

section Loading

variable {agora : AgoraId} {epoch : Epoch} {rootPublicKeySize recordSize : Nat}
  {storage after : SecureStorage} {material : ActingMaterial}

-- The durable half of what is loaded is what is stored.
theorem loadActingMaterial_ok
    (hload : loadActingMaterial agora epoch rootPublicKeySize recordSize storage =
      .ok material after) :
    storage.held (agora, .CredentialKey) = some material.credentialKey.expose.toList ∧
      storage.held (agora, .RootOpening) = some material.rootOpening.expose.toList ∧
      storage.held (agora, .RootPublicKey) = some material.rootPublicKey := by
  unfold loadActingMaterial at hload
  rw [bind_eq_ok] at hload
  obtain ⟨credentialKey, _, hcredential, hload⟩ := hload
  obtain ⟨hstoredKey, rfl⟩ := loadSecret32_ok hcredential
  rw [bind_eq_ok] at hload
  obtain ⟨rootOpening, _, hopening, hload⟩ := hload
  obtain ⟨hstoredOpening, rfl⟩ := loadSecret32_ok hopening
  rw [bind_eq_ok] at hload
  obtain ⟨epochKey, _, hepochKey, hload⟩ := hload
  obtain ⟨_, rfl⟩ := loadSecret32_ok hepochKey
  rw [bind_eq_ok] at hload
  obtain ⟨found, _, hroot, hload⟩ := hload
  obtain ⟨_, rfl, hheld, _⟩ := SecureStorage.load_eq_ok.1 hroot
  rw [expect_bind_eq_ok] at hload
  obtain ⟨rootPublicKey, rfl, hload⟩ := hload
  rw [bind_eq_ok] at hload
  obtain ⟨record, _, _, hload⟩ := hload
  rw [expect_bind_eq_ok] at hload
  obtain ⟨_, _, hload⟩ := hload
  obtain ⟨rfl, _⟩ := pure_eq_ok.1 hload
  exact ⟨hstoredKey, hstoredOpening, hheld⟩

end Loading

section Equipment

variable [Primitives]

-- What a device of one root acts by in an epoch.
structure Equipped (root : AgoraId → Bytes 32) (agora : AgoraId) (epoch : Epoch)
    (material : ActingMaterial) : Prop where
  credentialKey : material.credentialKey.expose.toNatLe < fieldOrder
  rootOpening : material.rootOpening.expose.toNatLe < fieldOrder
  rootPublicKey : material.rootPublicKey = (root agora).toList
  point : (Primitives.fromBytes (root agora)).isSome
  epochKey : (Signature.publicKey material.epochKey.expose).map Bytes.toList =
    some material.epochRecord.publicKey
  certified : SignsMessage (root agora)
    (Signature.epochCertMessage agora epoch material.epochRecord.publicKey)
    material.epochRecord.signature

variable {agora : AgoraId} {root : AgoraId → Bytes 32} {epoch : Epoch} {material : ActingMaterial}
  {depth : Nat}

omit [Primitives] in
theorem lt_of_canonicalSecret {secret : Bytes 32} (hcanonical : CanonicalSecret secret.toList) :
    secret.toNatLe < fieldOrder := by
  obtain ⟨other, hother, hlt⟩ := hcanonical
  rwa [Bytes.toList_inj.1 hother]

-- Whatever a served run of a device lets it load, it is equipped by.
theorem equipped_of_load {start : Contents} (hblank : Blank agora start) {calls : List DeviceCall}
    (hserved : ∀ call ∈ calls, call.request.Served root agora)
    (hkeeps : ∀ happened ∈ events (operate agora) start calls,
      DeviceEvent.KeepsPair agora happened)
    {rootPublicKeySize recordSize : Nat} {faults : List (Option ProtocolError)}
    {after : SecureStorage}
    (hload : loadActingMaterial agora epoch rootPublicKeySize recordSize
      ⟨final (operate agora) start calls, faults⟩ = .ok material after) :
    Equipped root agora epoch material := by
  obtain ⟨hcredential, hopening, hroot⟩ := loadActingMaterial_ok hload
  have hallowed := allowed_final hblank hserved
  obtain ⟨publicKey, hkey, hrecord, hsigned⟩ :=
    matched_of_load (devicePaired_final hblank hkeeps) hload
  have hstored := (hallowed _ _ hroot).rootPublicKey rfl
  constructor
  · exact lt_of_canonicalSecret ((hallowed _ _ hcredential).secret (.inl rfl))
  · exact lt_of_canonicalSecret ((hallowed _ _ hopening).secret (.inr rfl))
  · exact hstored.1
  · exact hstored.2
  · rw [hkey, hrecord]
    rfl
  · rw [hrecord]
    exact signsMessage_of_signedIn hserved hsigned

-- The material opens a leaf.
theorem Equipped.commits (hequipped : Equipped root agora epoch material) :
    ∃ leaf, commit material.rootPublicKey material.credentialKey material.rootOpening agora =
      some leaf := by
  obtain ⟨point, hpoint⟩ := Option.isSome_iff_exists.1 hequipped.point
  rw [hequipped.rootPublicKey]
  simp [commit, hpoint]

variable {leaf : Commitment} {roots : EpochRoots} {leafWitness : Witness depth}
  {revocationAbsence spendAbsence : AbsenceWitness depth}

-- With witnesses for its leaf it satisfies the chain.
theorem Equipped.stands (hequipped : Equipped root agora epoch material)
    (hleaf : commit material.rootPublicKey material.credentialKey material.rootOpening agora =
      some leaf)
    (hincluded : verifies leaf leafWitness roots.policyClass = true)
    (hunrevoked : verifiesAbsent (revocationKey leaf) revocationAbsence roots.revocation = true)
    (hunspent : verifiesAbsent (Nullifier.migration material.credentialKey leaf agora).asBytes
      spendAbsence roots.spend = true) :
    Stands (material.witness leafWitness revocationAbsence spendAbsence) agora epoch roots := by
  intro action haction
  obtain ⟨publicKey, hkey, hrecord⟩ := Option.map_eq_some_iff.1 hequipped.epochKey
  obtain ⟨message, hmessage, hverify⟩ := hequipped.certified
  rw [← hequipped.rootPublicKey] at hverify
  exact chainHolds_iff.2 ⟨publicKey, message, leaf, hkey, hrecord, hmessage, hverify, hleaf,
    hincluded, hunrevoked, hunspent, haction⟩

omit [Primitives] in
theorem decode_isSome {bytes : Bytes 32} (hlt : bytes.toNatLe < fieldOrder) :
    (Plonk.decode bytes).isSome := by
  simp [Plonk.decode, Field.decode, hlt]

-- The key a certificate names is a point, and the signature is one of the scheme's.
theorem decodePoint_of_epochCertMessage {publicKey : List UInt8} {message : F}
    (hmessage : Signature.epochCertMessage agora epoch publicKey = some message) :
    (Plonk.decodePoint publicKey).isSome := by
  simp only [Signature.epochCertMessage, Signature.decodePoint, Option.bind_eq_bind,
    Option.bind_eq_some_iff] at hmessage
  obtain ⟨key, hkey, point, hpoint, -⟩ := hmessage
  simp [Plonk.decodePoint, hkey, hpoint]

theorem decodePoint_of_migrationCertMessage {publicKey : List UInt8} {message : F}
    (hmessage : Signature.migrationCertMessage agora publicKey = some message) :
    (Plonk.decodePoint publicKey).isSome := by
  simp only [Signature.migrationCertMessage, Signature.decodePoint, Option.bind_eq_bind,
    Option.bind_eq_some_iff] at hmessage
  obtain ⟨key, hkey, point, hpoint, -⟩ := hmessage
  simp [Plonk.decodePoint, hkey, hpoint]

theorem decodeSignature_of_verify {publicKey signature : List UInt8} {message : F}
    (hverify : Signature.verify publicKey message signature = true) :
    (Plonk.decodeSignature signature).isSome := by
  simp only [Signature.verify, getD_false_eq_true, Option.bind_eq_bind, Option.bind_eq_some_iff,
    Signature.decodePoint] at hverify
  obtain ⟨_, _, _, _, sig, hsig, rBytes, hr, sBytes, hs, r, hpoint, s, hscalar, _⟩ := hverify
  simp [Plonk.decodeSignature, Plonk.decodePoint, hsig, hr, hs, hpoint, hscalar]

-- The real backend can take it, where it can take the tree's witnesses.
theorem Equipped.converts (hequipped : Equipped root agora epoch material)
    (hpath : (Plonk.path leafWitness).isSome)
    (hrevocation : (Plonk.absence revocationAbsence).isSome)
    (hspend : (Plonk.absence spendAbsence).isSome) :
    (Plonk.chainWitness
      (material.witness leafWitness revocationAbsence spendAbsence)).isSome := by
  obtain ⟨message, hmessage, hverify⟩ := hequipped.certified
  obtain ⟨epochPoint, hepoch⟩ :=
    Option.isSome_iff_exists.1 (decodePoint_of_epochCertMessage hmessage)
  obtain ⟨certificate, hcertificate⟩ :=
    Option.isSome_iff_exists.1 (decodeSignature_of_verify hverify)
  obtain ⟨credentialKey, hcredential⟩ :=
    Option.isSome_iff_exists.1 (decode_isSome hequipped.credentialKey)
  obtain ⟨rootOpening, hopening⟩ :=
    Option.isSome_iff_exists.1 (decode_isSome hequipped.rootOpening)
  obtain ⟨rootPoint, hroot⟩ := Option.isSome_iff_exists.1 hequipped.point
  obtain ⟨path, hpath⟩ := Option.isSome_iff_exists.1 hpath
  obtain ⟨revocation, hrevocation⟩ := Option.isSome_iff_exists.1 hrevocation
  obtain ⟨spend, hspend⟩ := Option.isSome_iff_exists.1 hspend
  have hrootPoint : Plonk.decodePoint material.rootPublicKey = some rootPoint := by
    simp [Plonk.decodePoint, hequipped.rootPublicKey, hroot]
  simp [Plonk.chainWitness, ActingMaterial.witness, hepoch, hcertificate, hcredential, hopening,
    hrootPoint, hpath, hrevocation, hspend]

-- Whatever a device was asked, and whatever failed: what it then loads to act in an epoch opens a
-- leaf, and with witnesses for that leaf every action is proved and accepted, on the stub and on
-- any backend that realizes its circuits.
theorem stored_material_proves {start : Contents} (hblank : Blank agora start)
    (calls : List DeviceCall) (hserved : ∀ call ∈ calls, call.request.Served root agora)
    (hkeeps : ∀ happened ∈ events (operate agora) start calls,
      DeviceEvent.KeepsPair agora happened)
    (rootPublicKeySize recordSize : Nat) (faults : List (Option ProtocolError))
    (after : SecureStorage)
    (hload : loadActingMaterial agora epoch rootPublicKeySize recordSize
      ⟨final (operate agora) start calls, faults⟩ = .ok material after) :
    ∃ leaf, commit material.rootPublicKey material.credentialKey material.rootOpening agora =
        some leaf ∧
      ∀ (depth : Nat) (roots : EpochRoots) (leafWitness : Witness depth)
        (revocationAbsence spendAbsence : AbsenceWitness depth),
        verifies leaf leafWitness roots.policyClass = true →
        verifiesAbsent (revocationKey leaf) revocationAbsence roots.revocation = true →
        verifiesAbsent (Nullifier.migration material.credentialKey leaf agora).asBytes
          spendAbsence roots.spend = true →
        Acts (StubProver depth) (material.witness leafWitness revocationAbsence spendAbsence)
          agora epoch roots ∧
        ∀ (stdLib : Plonk.CircuitLib) (backend : Plonk.Backend depth), Plonk.PointEncoding →
          stdLib.Documented → backend.Realizes stdLib → (Plonk.path leafWitness).isSome →
          (Plonk.absence revocationAbsence).isSome → (Plonk.absence spendAbsence).isSome →
          roots.Convert →
          Acts backend.proofSystem
            (material.witness leafWitness revocationAbsence spendAbsence) agora epoch roots := by
  have hequipped := equipped_of_load hblank hserved hkeeps hload
  obtain ⟨leaf, hleaf⟩ := hequipped.commits
  refine ⟨leaf, hleaf, ?_⟩
  intro depth roots leafWitness revocationAbsence spendAbsence hincluded hunrevoked hunspent
  have hstands := hequipped.stands hleaf hincluded hunrevoked hunspent
  refine ⟨hstands.acts_stub, ?_⟩
  intro stdLib backend hpoints hstd hrealizes hpath hrevocation hspend hroots
  exact hstands.acts_backend hpoints hstd hrealizes
    (hequipped.converts hpath hrevocation hspend) hroots

end Equipment

end Nymora.Protocol

namespace Nymora.Protocol.Proving.Sample

open Nymora.Core
open Nymora.Crypto
open Nymora.Accumulator
open Nymora.Circuits
open Nymora.Circuits.Soundness.Sample (absence)
open Nymora.Proofs
open Nymora.Ports
open Nymora.Ports.Software.Sample (seeded)
open Credential
open Credential.Expiry.Sample (agora blank)
open Credential.Handover.Sample (three)
open Runs
open scoped Nymora.Crypto.Reference

def entropy : CredentialEntropy :=
  ⟨Bytes.replicate 32 1, Bytes.replicate 32 2, Bytes.replicate 32 3⟩

-- A credential of the software store, certified for one epoch.
def device : List DeviceCall :=
  [⟨.member (.create seeded.keyStore entropy 32 0), []⟩,
    ⟨.member (.rollEpoch seeded.keyStore three (Bytes.replicate 32 7) 112), []⟩]

def held : SecureStorage := ⟨final (operate agora) blank device, []⟩

def loaded : Option ActingMaterial :=
  match loadActingMaterial agora three 32 112 held with
  | .ok material _ => some material
  | .error _ _ => none

theorem loaded_isSome : loaded.isSome := by decide +kernel

def material : ActingMaterial := loaded.get loaded_isSome

theorem load_held : ∃ after, loadActingMaterial agora three 32 112 held = .ok material after := by
  have hloaded : loaded = some material := (Option.some_get loaded_isSome).symm
  unfold loaded at hloaded
  split at hloaded
  · next found after hload =>
      rw [← Option.some.inj hloaded]
      exact ⟨after, hload⟩
  · cases hloaded

theorem opens_isSome : (commit material.rootPublicKey material.credentialKey material.rootOpening
    agora).isSome := by decide +kernel

def leaf : Commitment :=
  (commit material.rootPublicKey material.credentialKey material.rootOpening agora).get opens_isSome

def standing : Tree 1 := ⟨[leaf], fun _ => Nat.le_succ 1⟩

theorem standing_witness : (standing.witness 0).isSome := by decide +kernel

def leafWitness : Witness 1 := (standing.witness 0).get standing_witness

def roots : EpochRoots :=
  ⟨standing.root, (ExclusionSet.new : ExclusionSet 1).root, (ExclusionSet.new : ExclusionSet 1).root⟩

theorem device_served : ∀ call ∈ device, call.request.Served seeded.root agora := by
  have hhonours := seeded.keyStore_honours Reference.signature_correct
  intro call hmem
  simp only [device, List.mem_cons, List.not_mem_nil, or_false] at hmem
  rcases hmem with rfl | rfl
  · exact hhonours
  · exact hhonours

theorem device_keeps : ∀ happened ∈ events (operate agora) blank device,
    DeviceEvent.KeepsPair agora happened := by
  intro happened hmem request _ keyStore current epochSecret recordSize cursor _ _ _ _ _ hthird
  have hnone : happened.call.faults = [] := by
    simp only [device, events_cons, events_nil, List.mem_cons, List.not_mem_nil, or_false] at hmem
    rcases hmem with rfl | rfl
    · rfl
    · rfl
  simp only [hnone, List.getD_nil, ne_eq, not_true_eq_false] at hthird

-- The leaf stands alone in its class, in the sets of a new agora.
theorem leaf_stands : verifies leaf leafWitness roots.policyClass = true ∧
    verifiesAbsent (revocationKey leaf) absence roots.revocation = true ∧
    verifiesAbsent (Nullifier.migration material.credentialKey leaf agora).asBytes absence
      roots.spend = true := by
  decide +kernel

theorem stored_material_proves_seeded :
    Acts (StubProver 1) (material.witness leafWitness absence absence) agora three roots := by
  obtain ⟨after, hload⟩ := load_held
  have hblank : Blank agora blank := fun _ => rfl
  have hproved := stored_material_proves hblank device device_served device_keeps 32 112 []
    after hload
  obtain ⟨opened, hopened, hproves⟩ := hproved
  have hleaf : opened = leaf := (Option.get_of_eq_some opens_isSome hopened).symm
  rw [hleaf] at hproves
  obtain ⟨hincluded, hunrevoked, hunspent⟩ := leaf_stands
  exact (hproves 1 roots leafWitness absence absence hincluded hunrevoked hunspent).1

end Nymora.Protocol.Proving.Sample
