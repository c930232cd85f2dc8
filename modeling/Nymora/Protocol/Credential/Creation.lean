import Nymora.Crypto.Reference
import Nymora.Protocol.Credential.Theorems

namespace Nymora.Protocol.Credential

open Nymora.Core
open Nymora.Crypto
open Nymora.Ports
open Method

-- The durable slots, in the order a creation writes them.
def durableSlots : List Slot := [.CredentialKey, .RootOpening, .RootPublicKey, .InboxKey]

-- Once a store has failed, the deletes after it work.
def DeletesWork (storage : SecureStorage) : Prop :=
  ∀ failed later, failed < later → storage.fault failed ≠ none → storage.fault later = none

-- The store that fails, if one does, comes after stores to empty slots only.
def OverwritesNothing (agora : AgoraId) (storage : SecureStorage) : Prop :=
  ∀ failed, failed < 4 → storage.fault failed ≠ none →
    (∀ earlier, earlier < failed → storage.fault earlier = none) →
      ∀ slot ∈ durableSlots.take failed, storage.held (agora, slot) = none

-- The slots written before the one that fails are left empty.
def unwoundTo (agora : AgoraId) (contents : Contents) (failed : Nat) : Contents :=
  fun key => if key.1 = agora ∧ key.2 ∈ durableSlots.take failed then none else contents key

section Material

variable {agora : AgoraId} {skCred : CredentialKey} {rRoot : RootOpening} {pkRoot : List UInt8}
  {skInbox : InboxSecretKey} {storage after : SecureStorage}

theorem left_delete {slot : Slot} (hfault : storage.fault 0 = none) :
    left (SecureStorage.delete agora slot storage) =
      storage.used (Function.update storage.held (agora, slot) none) := by
  have hdelete : SecureStorage.delete agora slot storage = .ok () _ :=
    SecureStorage.delete_eq_ok.2 ⟨hfault, rfl⟩
  rw [hdelete]
  rfl

-- The deletes of an unwinding, each as far as it works.
def discards (agora : AgoraId) : List Slot → Storing Unit
  | [] => pure ()
  | [slot] => ignoring (SecureStorage.delete agora slot)
  | slot :: slots => do
      ignoring (SecureStorage.delete agora slot)
      discards agora slots

theorem held_discards {slots : List Slot} (hworks : ∀ index, storage.fault index = none) :
    (left (discards agora slots storage)).held =
      fun key => if key.1 = agora ∧ key.2 ∈ slots then none else storage.held key := by
  induction slots generalizing storage with
  | nil =>
      funext key
      simp [discards, left, pure, EStateM.pure]
  | cons slot slots ih =>
      have hdeleted : (left (SecureStorage.delete agora slot storage)).held =
          Function.update storage.held (agora, slot) none := by
        rw [left_delete (hworks 0), FaultyStore.held_used]
      have hrest : (left (discards agora (slot :: slots) storage)).held =
          (left (discards agora slots (left (SecureStorage.delete agora slot storage)))).held := by
        cases slots with
        | nil => rfl
        | cons next slots => rfl
      rw [hrest, ih, hdeleted]
      · funext key
        obtain ⟨owner, other⟩ := key
        simp only [Function.update_apply, Prod.mk.injEq, List.mem_cons]
        grind
      · intro index
        rw [left_delete (hworks 0), FaultyStore.fault_used]
        exact hworks (index + 1)

-- What was written before the failure is gone, and with it what it overwrote.
theorem held_unwound (failed : Nat) {middle : SecureStorage}
    (hworks : ∀ index, middle.fault index = none)
    (hsame : ∀ slot ∉ durableSlots.take failed,
      middle.held (agora, slot) = storage.held (agora, slot))
    (hother : ∀ owner ≠ agora, ∀ slot, middle.held (owner, slot) = storage.held (owner, slot)) :
    (left (discards agora (durableSlots.take failed).reverse middle)).held =
      unwoundTo agora storage.held failed := by
  rw [held_discards hworks]
  funext ⟨owner, slot⟩
  unfold unwoundTo
  simp only [List.mem_reverse]
  by_cases howner : owner = agora
  · subst howner
    by_cases hslot : slot ∈ durableSlots.take failed
    · rw [if_pos ⟨rfl, hslot⟩, if_pos ⟨rfl, hslot⟩]
    · rw [if_neg (by simp [hslot]), if_neg (by simp [hslot]), hsame slot hslot]
  · rw [if_neg (by simp [howner]), if_neg (by simp [howner]), hother owner howner slot]

theorem storeCredentialMaterial_ok {result : Unit}
    (hstore : storeCredentialMaterial agora skCred rRoot pkRoot skInbox storage =
      .ok result after) :
    (∀ index, index < 4 → storage.fault index = none) ∧
      after.held (agora, .CredentialKey) = some skCred.expose.toList ∧
      after.held (agora, .RootOpening) = some rRoot.expose.toList ∧
      after.held (agora, .RootPublicKey) = some pkRoot ∧
      after.held (agora, .InboxKey) = some skInbox.expose.toList := by
  unfold storeCredentialMaterial at hstore
  rw [bind_eq_ok] at hstore
  obtain ⟨_, first, hcredential, hstore⟩ := hstore
  rw [bind_eq_ok] at hstore
  obtain ⟨_, second, hopening, hstore⟩ := hstore
  rw [bind_eq_ok] at hstore
  obtain ⟨_, third, hpublic, hinbox⟩ := hstore
  rw [unwinding_eq_ok] at hopening hpublic hinbox
  obtain ⟨hzeroth, rfl⟩ := SecureStorage.store_eq_ok.1 hcredential
  obtain ⟨hfirst, rfl⟩ := SecureStorage.store_eq_ok.1 hopening
  obtain ⟨hsecond, rfl⟩ := SecureStorage.store_eq_ok.1 hpublic
  obtain ⟨hthird, rfl⟩ := SecureStorage.store_eq_ok.1 hinbox
  simp only [FaultyStore.fault_used] at hfirst hsecond hthird
  refine ⟨fun index hlt => ?_, ?_, ?_, ?_, ?_⟩
  · have hindex : index = 0 ∨ index = 1 ∨ index = 2 ∨ index = 3 := by omega
    rcases hindex with rfl | rfl | rfl | rfl
    all_goals assumption
  all_goals simp

-- A store that fails is followed by the deletes of the slots already written.
theorem storeCredentialMaterial_error {refusal : ProtocolError} (hworks : DeletesWork storage)
    (hstore : storeCredentialMaterial agora skCred rRoot pkRoot skInbox storage =
      .error refusal after) :
    ∃ failed, failed < 4 ∧ storage.fault failed ≠ none ∧
      (∀ earlier, earlier < failed → storage.fault earlier = none) ∧
      after.held = unwoundTo agora storage.held failed := by
  have hlater : ∀ {failed}, storage.fault failed = some refusal → ∀ later, failed < later →
      storage.fault later = none := by
    intro failed hfailed later hlt
    apply hworks failed later hlt
    rw [hfailed]
    exact Option.some_ne_none refusal
  unfold storeCredentialMaterial at hstore
  rw [bind_eq_error] at hstore
  rcases hstore with hfailed | ⟨_, first, hcredential, hstore⟩
  · obtain ⟨hfault, rfl⟩ := SecureStorage.store_eq_error.1 hfailed
    refine ⟨0, by omega, by simp [hfault], by omega, ?_⟩
    funext key
    simp [unwoundTo]
  obtain ⟨hzeroth, rfl⟩ := SecureStorage.store_eq_ok.1 hcredential
  rw [bind_eq_error] at hstore
  rcases hstore with hunwound | ⟨_, second, hopening, hstore⟩
  · obtain ⟨middle, hfailed, rfl⟩ := unwinding_eq_error.1 hunwound
    obtain ⟨hfault, rfl⟩ := SecureStorage.store_eq_error.1 hfailed
    rw [FaultyStore.fault_used] at hfault
    refine ⟨1, by omega, by simp [hfault], fun earlier hlt => ?_, ?_⟩
    · obtain rfl : earlier = 0 := by omega
      exact hzeroth
    · apply held_unwound 1
      · intro index
        simp only [FaultyStore.fault_used]
        exact hlater hfault _ (by omega)
      · intro slot hslot
        simp only [durableSlots, List.take, List.mem_singleton] at hslot
        simp [hslot]
      · intro owner howner slot
        simp [howner]
  rw [unwinding_eq_ok] at hopening
  obtain ⟨hfirst, rfl⟩ := SecureStorage.store_eq_ok.1 hopening
  rw [FaultyStore.fault_used] at hfirst
  rw [bind_eq_error] at hstore
  rcases hstore with hunwound | ⟨_, third, hpublic, hunwound⟩
  · obtain ⟨middle, hfailed, rfl⟩ := unwinding_eq_error.1 hunwound
    obtain ⟨hfault, rfl⟩ := SecureStorage.store_eq_error.1 hfailed
    simp only [FaultyStore.fault_used] at hfault
    refine ⟨2, by omega, by simp [hfault], fun earlier hlt => ?_, ?_⟩
    · have hearlier : earlier = 0 ∨ earlier = 1 := by omega
      rcases hearlier with rfl | rfl
      all_goals assumption
    · apply held_unwound 2
      · intro index
        simp only [FaultyStore.fault_used]
        exact hlater hfault _ (by omega)
      · intro slot hslot
        simp only [durableSlots, List.take, List.mem_cons, List.not_mem_nil, or_false,
          not_or] at hslot
        simp [hslot.1, hslot.2]
      · intro owner howner slot
        simp [howner]
  rw [unwinding_eq_ok] at hpublic
  obtain ⟨hsecond, rfl⟩ := SecureStorage.store_eq_ok.1 hpublic
  simp only [FaultyStore.fault_used] at hsecond
  obtain ⟨middle, hfailed, rfl⟩ := unwinding_eq_error.1 hunwound
  obtain ⟨hfault, rfl⟩ := SecureStorage.store_eq_error.1 hfailed
  simp only [FaultyStore.fault_used] at hfault
  refine ⟨3, by omega, by simp [hfault], fun earlier hlt => ?_, ?_⟩
  · have hearlier : earlier = 0 ∨ earlier = 1 ∨ earlier = 2 := by omega
    rcases hearlier with rfl | rfl | rfl
    all_goals assumption
  · apply held_unwound 3
    · intro index
      simp only [FaultyStore.fault_used]
      exact hlater hfault _ (by omega)
    · intro slot hslot
      simp only [durableSlots, List.take, List.mem_cons, List.not_mem_nil, or_false,
        not_or] at hslot
      simp [hslot.1, hslot.2.1, hslot.2.2]
    · intro owner howner slot
      simp [howner]

-- Whether a failed creation leaves the durable slots as they were.
theorem storeCredentialMaterial_unchanged {refusal : ProtocolError} (hworks : DeletesWork storage)
    (hstore : storeCredentialMaterial agora skCred rRoot pkRoot skInbox storage =
      .error refusal after) :
    (∀ slot ∈ durableSlots, after.held (agora, slot) = storage.held (agora, slot)) ↔
      OverwritesNothing agora storage := by
  obtain ⟨failed, hlt, hfault, hearlier, hheld⟩ := storeCredentialMaterial_error hworks hstore
  rw [hheld]
  constructor
  · intro hunchanged other hother hfaulty hbefore slot hslot
    have hfailed : other = failed := by
      rcases Nat.lt_trichotomy other failed with hlt' | heq | hgt
      · exact absurd (hearlier other hlt') hfaulty
      · exact heq
      · exact absurd (hbefore failed hgt) hfault
    subst hfailed
    have hsame := hunchanged slot (List.mem_of_mem_take hslot)
    rw [unwoundTo, if_pos ⟨rfl, hslot⟩] at hsame
    exact hsame.symm
  · intro hempty slot _
    unfold unwoundTo
    by_cases hslot : slot ∈ durableSlots.take failed
    · rw [if_pos ⟨rfl, hslot⟩]
      exact (hempty failed hlt hfault hearlier slot hslot).symm
    · rw [if_neg (by simp [hslot])]

-- A creation whose stores all worked overwrote whatever it liked.
theorem overwritesNothing_of_works
    (hnone : ∀ index, index < 4 → storage.fault index = none) : OverwritesNothing agora storage :=
  fun failed hlt hfault _ => absurd (hnone failed hlt) hfault

end Material

section Wholeness

variable [Primitives]

-- The durable slots hold one credential: the values its leaf commits to and its inbox key.
def HoldsCredential (agora : AgoraId) (contents : Contents) (skCred : CredentialKey)
    (pkRoot : List UInt8) (commitment : Commitment) (inbox : InboxPublicKey) : Prop :=
  ∃ rRoot : RootOpening, ∃ skInbox : InboxSecretKey,
    contents (agora, .CredentialKey) = some skCred.expose.toList ∧
    contents (agora, .RootOpening) = some rRoot.expose.toList ∧
    contents (agora, .RootPublicKey) = some pkRoot ∧
    contents (agora, .InboxKey) = some skInbox.expose.toList ∧
    commit pkRoot skCred rRoot agora = some commitment ∧
    Inbox.inboxPublicKey skInbox = inbox

def CreatesWhole (agora : AgoraId) (keyStore : KeyStore) (entropy : CredentialEntropy)
    (publicKeySize bindingSize : Nat) (storage : SecureStorage) : Prop :=
  match create agora keyStore entropy publicKeySize bindingSize storage with
  | .ok created after => ∃ skCred, HoldsCredential agora after.held skCred
      created.root.publicKey.val created.commitment created.inbox
  | .error _ after => ∀ slot ∈ durableSlots, after.held (agora, slot) = storage.held (agora, slot)

-- The successor holds the handed-over key, and the spend consumes the predecessor's leaf.
def MigratesWhole (agora : AgoraId) (handoff : MigrationHandoff) (rootPublicKey : List UInt8)
    (rootOpening inboxKey : FreshEntropy) (storage : SecureStorage) : Prop :=
  match completeMigration agora handoff rootPublicKey rootOpening inboxKey storage with
  | .ok migrated after =>
      HoldsCredential agora after.held handoff.credentialKey rootPublicKey migrated.commitment
        migrated.inbox ∧
      ∃ consumedLeaf, commit handoff.rootPublicKey handoff.credentialKey handoff.rootOpening
        agora = some consumedLeaf ∧
        migrated.spend = Nullifier.migration handoff.credentialKey consumedLeaf agora
  | .error _ after => ∀ slot ∈ durableSlots, after.held (agora, slot) = storage.held (agora, slot)

-- The creation gets as far as storing: the root exists and its key names a point.
def CreationStores (agora : AgoraId) (keyStore : KeyStore) (entropy : CredentialEntropy)
    (publicKeySize bindingSize : Nat) : Prop :=
  ∃ root, keyStore.createRoot agora publicKeySize bindingSize = .ok root ∧
    (commit root.publicKey.val (.new (Field.mintSecret entropy.credentialKey))
      (.new (Field.mintSecret entropy.rootOpening)) agora).isSome

-- So does the migration: the handoff is for this agora and both root keys name points.
def MigrationStores (agora : AgoraId) (handoff : MigrationHandoff) (rootPublicKey : List UInt8)
    (rootOpening : FreshEntropy) : Prop :=
  handoff.agora = agora ∧
    (commit rootPublicKey handoff.credentialKey (.new (Field.mintSecret rootOpening))
      agora).isSome ∧
    (commit handoff.rootPublicKey handoff.credentialKey handoff.rootOpening agora).isSome

variable {agora : AgoraId} {storage : SecureStorage}

theorem createsWhole_iff {keyStore : KeyStore} {entropy : CredentialEntropy}
    {publicKeySize bindingSize : Nat} (hworks : DeletesWork storage) :
    CreatesWhole agora keyStore entropy publicKeySize bindingSize storage ↔
      (CreationStores agora keyStore entropy publicKeySize bindingSize →
        OverwritesNothing agora storage) := by
  unfold CreatesWhole
  cases hcreate : create agora keyStore entropy publicKeySize bindingSize storage with
  | ok created after =>
      simp only
      unfold create at hcreate
      rw [expectOk_bind_eq_ok] at hcreate
      obtain ⟨root, _, hcreate⟩ := hcreate
      rw [expect_bind_eq_ok] at hcreate
      obtain ⟨commitment, hcommit, hcreate⟩ := hcreate
      obtain ⟨_, hstore, rfl⟩ := bind_pure_eq_ok.1 hcreate
      obtain ⟨hnone, hcredential, hopening, hpublic, hinbox⟩ := storeCredentialMaterial_ok hstore
      refine ⟨fun _ _ => overwritesNothing_of_works hnone, fun _ => ?_⟩
      exact ⟨_, _, _, hcredential, hopening, hpublic, hinbox, hcommit, rfl⟩
  | error refusal after =>
      simp only
      unfold create at hcreate
      rw [expectOk_bind_eq_error] at hcreate
      rcases hcreate with ⟨hrefused, rfl⟩ | ⟨root, hroot, hcreate⟩
      · refine ⟨fun _ hstores => ?_, fun _ _ _ => rfl⟩
        obtain ⟨_, hroot, _⟩ := hstores
        rw [hrefused] at hroot
        cases hroot
      rw [expect_bind_eq_error] at hcreate
      rcases hcreate with ⟨hnone, _, rfl⟩ | ⟨commitment, hcommit, hcreate⟩
      · refine ⟨fun _ hstores => ?_, fun _ _ _ => rfl⟩
        obtain ⟨_, hroot', hsome⟩ := hstores
        obtain rfl := Except.ok.inj (hroot.symm.trans hroot')
        rw [hnone] at hsome
        cases hsome
      · rw [storeCredentialMaterial_unchanged hworks (bind_pure_eq_error.1 hcreate)]
        refine ⟨fun hempty _ => hempty, fun hall => hall ⟨root, hroot, ?_⟩⟩
        rw [hcommit]
        rfl

theorem migratesWhole_iff {handoff : MigrationHandoff} {rootPublicKey : List UInt8}
    {rootOpening inboxKey : FreshEntropy} (hworks : DeletesWork storage) :
    MigratesWhole agora handoff rootPublicKey rootOpening inboxKey storage ↔
      (MigrationStores agora handoff rootPublicKey rootOpening →
        OverwritesNothing agora storage) := by
  unfold MigratesWhole
  cases hmigrate : completeMigration agora handoff rootPublicKey rootOpening inboxKey
      storage with
  | ok migrated after =>
      simp only
      unfold completeMigration at hmigrate
      rw [ensure_bind_eq_ok] at hmigrate
      obtain ⟨_, hmigrate⟩ := hmigrate
      rw [expect_bind_eq_ok] at hmigrate
      obtain ⟨commitment, hcommit, hmigrate⟩ := hmigrate
      rw [expect_bind_eq_ok] at hmigrate
      obtain ⟨consumedLeaf, hconsumed, hmigrate⟩ := hmigrate
      obtain ⟨_, hstore, rfl⟩ := bind_pure_eq_ok.1 hmigrate
      obtain ⟨hnone, hcredential, hopening, hpublic, hinbox⟩ := storeCredentialMaterial_ok hstore
      refine ⟨fun _ _ => overwritesNothing_of_works hnone, fun _ => ⟨?_, ?_⟩⟩
      · exact ⟨_, _, hcredential, hopening, hpublic, hinbox, hcommit, rfl⟩
      · exact ⟨consumedLeaf, hconsumed, rfl⟩
  | error refusal after =>
      simp only
      unfold completeMigration at hmigrate
      rw [ensure_bind_eq_error] at hmigrate
      rcases hmigrate with ⟨hother, _, rfl⟩ | ⟨hagora, hmigrate⟩
      · exact ⟨fun _ hstores => absurd hstores.1 hother, fun _ _ _ => rfl⟩
      rw [expect_bind_eq_error] at hmigrate
      rcases hmigrate with ⟨hnone, _, rfl⟩ | ⟨commitment, hcommit, hmigrate⟩
      · refine ⟨fun _ hstores => ?_, fun _ _ _ => rfl⟩
        obtain ⟨_, hsome, _⟩ := hstores
        rw [hnone] at hsome
        cases hsome
      rw [expect_bind_eq_error] at hmigrate
      rcases hmigrate with ⟨hnone, _, rfl⟩ | ⟨consumedLeaf, hconsumed, hmigrate⟩
      · refine ⟨fun _ hstores => ?_, fun _ _ _ => rfl⟩
        obtain ⟨_, _, hsome⟩ := hstores
        rw [hnone] at hsome
        cases hsome
      · rw [storeCredentialMaterial_unchanged hworks (bind_pure_eq_error.1 hmigrate)]
        refine ⟨fun hempty _ => hempty, fun hall => hall ⟨hagora, ?_, ?_⟩⟩
        · rw [hcommit]
          rfl
        · rw [hconsumed]
          rfl

-- Creating and completing a migration are whole exactly where a store that fails comes after
-- stores to empty slots only: the unwinding deletes what it overwrote.
theorem creation_whole_iff (agora : AgoraId) (storage : SecureStorage)
    (hworks : DeletesWork storage) :
    (∀ keyStore entropy publicKeySize bindingSize,
      CreatesWhole agora keyStore entropy publicKeySize bindingSize storage ↔
        (CreationStores agora keyStore entropy publicKeySize bindingSize →
          OverwritesNothing agora storage)) ∧
    ∀ handoff rootPublicKey rootOpening inboxKey,
      MigratesWhole agora handoff rootPublicKey rootOpening inboxKey storage ↔
        (MigrationStores agora handoff rootPublicKey rootOpening →
          OverwritesNothing agora storage) :=
  ⟨fun _ _ _ _ => createsWhole_iff hworks, fun _ _ _ _ => migratesWhole_iff hworks⟩

end Wholeness

end Nymora.Protocol.Credential

namespace Nymora.Protocol.Credential.Creation.Sample

open Nymora.Core
open Nymora.Crypto
open Nymora.Ports
open scoped Nymora.Crypto.Reference

def agora : AgoraId := .fromBytes (Bytes.replicate 32 1)

-- A key store that creates the root its fixed seed names, and signs nothing.
def rootStore : KeyStore where
  createRoot _ publicKeySize _ :=
    let seed := Signature.SigningSeed.mint (Bytes.replicate 32 2)
    if hsize : 32 ≤ publicKeySize then
      .ok ⟨⟨seed.publicKey.toList, by simpa using hsize⟩, none⟩
    else
      .error .Malformed
  signEpochCert _ _ := .error .Unavailable
  signMigration _ _ := .error .Unavailable
  signInboxCert _ _ := .error .Unavailable

def entropy : CredentialEntropy :=
  ⟨Bytes.replicate 32 4, Bytes.replicate 32 5, Bytes.replicate 32 6⟩

-- The fourth store, of the new inbox key, fails.
def lastStoreFails : List (Option ProtocolError) := [none, none, none, some .Unavailable]

-- A credential is stored already.
def occupied : SecureStorage where
  held key := if key.1 = agora ∧ key.2 ∈ durableSlots then some (List.replicate 32 8) else none
  faults := lastStoreFails

def empty : SecureStorage := ⟨fun _ => none, lastStoreFails⟩

theorem deletesWork_lastStoreFails (contents : Contents) :
    DeletesWork ⟨contents, lastStoreFails⟩ := by
  intro failed later hlt hfault
  have hfailed : 3 ≤ failed := by
    by_contra hsmall
    have hcases : failed = 0 ∨ failed = 1 ∨ failed = 2 := by omega
    rcases hcases with rfl | rfl | rfl
    all_goals exact hfault rfl
  apply List.getD_eq_default
  simp only [lastStoreFails, List.length_cons, List.length_nil]
  omega

theorem failed_creation_deletes_stored_credential :
    ¬ ∀ storage, DeletesWork storage → CreatesWhole agora rootStore entropy 32 0 storage := by
  intro hclaim
  have hworks : DeletesWork occupied := deletesWork_lastStoreFails _
  have hstores : CreationStores agora rootStore entropy 32 0 := ⟨_, rfl, by decide +kernel⟩
  have hempty := (createsWhole_iff hworks).1 (hclaim occupied hworks) hstores
  have hfails : occupied.fault 3 ≠ none := by decide
  have hnone := hempty 3 (by omega) hfails
    (fun earlier hlt => by
      have hcases : earlier = 0 ∨ earlier = 1 ∨ earlier = 2 := by omega
      rcases hcases with rfl | rfl | rfl
      all_goals rfl) .CredentialKey (by decide)
  exact absurd hnone (by decide)

theorem creation_whole_iff_empty : CreatesWhole agora rootStore entropy 32 0 empty := by
  have hwhole := (creation_whole_iff agora empty (deletesWork_lastStoreFails _)).1
  exact (hwhole rootStore entropy 32 0).2 fun _ _ _ _ _ _ _ => rfl

end Nymora.Protocol.Credential.Creation.Sample
