import Nymora.Crypto.Reference
import Nymora.Protocol.Credential.Expiry

namespace Nymora.Protocol.Credential

open Nymora.Core
open Nymora.Crypto
open Nymora.Ports
open FaultyStore (Confined)
open Method
open Runs

-- What a planned migration leaves on the old device.
structure Destroyed (agora : AgoraId) (before after : Contents) : Prop where
  inboxKey : after (agora, .InboxKey) = none
  epochCursor : after (agora, .EpochCursor) = none
  epochKey : ∀ epoch, after (agora, .EpochKey epoch) = none
  epochCert : ∀ epoch, after (agora, .EpochCert epoch) = none
  credentialKey : after (agora, .CredentialKey) = before (agora, .CredentialKey)
  rootOpening : after (agora, .RootOpening) = before (agora, .RootOpening)
  rootPublicKey : after (agora, .RootPublicKey) = before (agora, .RootPublicKey)

-- A key store that signs: both certificates of the migration, whatever the inbox key, and small
-- enough for the handoff to fit its buffer.
def Signs (agora : AgoraId) (keyStore : KeyStore) (successorPublicKey : List UInt8)
    (buffers : MigrationBuffers) (contents : Contents) : Prop :=
  ∀ pkRoot, contents (agora, .RootPublicKey) = some pkRoot → ∀ inbox : InboxPublicKey,
    ∃ signature retire,
      keyStore.signMigration ⟨agora, successorPublicKey⟩ buffers.signature = .ok signature ∧
      keyStore.signInboxCert ⟨agora, .Retire, inbox.asBytes.toList⟩ buffers.retireSignature =
        .ok retire ∧
      ∀ skCred rRoot, MigrationHandoff.encodedLen
        ⟨agora, skCred, rRoot, pkRoot, signature.val, retire.val⟩ ≤ buffers.handoff

-- Everything stored that acts is of the epoch the cursor names.
def CursorLeads (agora : AgoraId) (contents : Contents) : Prop :=
  ∀ epoch : Epoch, contents (agora, .EpochKey epoch) ≠ none ∨
    contents (agora, .EpochCert epoch) ≠ none → CursorIs agora contents (some epoch)

-- No storage operation fails once the inbox key is deleted: the cursor's load, and with a
-- cursor the sweep's own load of it and the three deletes.
def RestWorks (agora : AgoraId) (storage : SecureStorage) : Prop :=
  storage.fault 5 = none ∧ ∀ cursor, CursorIs agora storage.held (some cursor) →
    ∀ index, 6 ≤ index → index < 10 → storage.fault index = none

section Destroying

variable {agora : AgoraId} {successorPublicKey : List UInt8} {buffers : MigrationBuffers}
  {storage after : SecureStorage}

-- The cursor as it is read once the inbox key is gone.
theorem CursorIs.past_inboxKey {contents : Contents} {cursor : Option Epoch}
    (hcursor : CursorIs agora contents cursor) :
    CursorIs agora (Function.update contents (agora, .InboxKey) none) cursor := by
  rw [CursorIs, Function.update_of_ne (by simp)]
  exact hcursor

theorem destroyActingMaterial_uncursored (hcursor : CursorIs agora storage.held none)
    (hdestroy : destroyActingMaterial agora storage = .ok () after) :
    storage.fault 0 = none ∧ storage.fault 1 = none ∧
      after.held = Function.update storage.held (agora, .InboxKey) none := by
  unfold destroyActingMaterial at hdestroy
  rw [bind_eq_ok] at hdestroy
  obtain ⟨_, deleted, hdelete, hdestroy⟩ := hdestroy
  obtain ⟨hdeleted, rfl⟩ := SecureStorage.delete_eq_ok.1 hdelete
  rw [bind_eq_ok] at hdestroy
  obtain ⟨found, loaded, hload, hdestroy⟩ := hdestroy
  obtain ⟨hloaded, rfl, hfound⟩ := loadCursor_eq_ok.1 hload
  obtain rfl := CursorIs.unique hfound hcursor.past_inboxKey
  obtain ⟨_, rfl⟩ := pure_eq_ok.1 hdestroy
  rw [FaultyStore.fault_used] at hloaded
  exact ⟨hdeleted, hloaded, rfl⟩

-- What is left where a cursor led the destruction.
def destroyedAt (agora : AgoraId) (contents : Contents) (cursor : Epoch) : Contents :=
  Function.update (Function.update (Function.update (Function.update contents
    (agora, .InboxKey) none) (agora, .EpochKey cursor) none) (agora, .EpochCert cursor) none)
    (agora, .EpochCursor) none

theorem destroyActingMaterial_cursored {cursor : Epoch}
    (hcursor : CursorIs agora storage.held (some cursor))
    (hdestroy : destroyActingMaterial agora storage = .ok () after) :
    (∀ index, index < 6 → storage.fault index = none) ∧
      after.held = destroyedAt agora storage.held cursor := by
  unfold destroyActingMaterial at hdestroy
  rw [bind_eq_ok] at hdestroy
  obtain ⟨_, deleted, hdelete, hdestroy⟩ := hdestroy
  obtain ⟨hzeroth, rfl⟩ := SecureStorage.delete_eq_ok.1 hdelete
  rw [bind_eq_ok] at hdestroy
  obtain ⟨found, loaded, hload, hdestroy⟩ := hdestroy
  obtain ⟨hfirst, rfl, hfound⟩ := loadCursor_eq_ok.1 hload
  obtain rfl := CursorIs.unique hfound hcursor.past_inboxKey
  simp only at hdestroy
  rw [bind_eq_ok] at hdestroy
  obtain ⟨_, swept, hsweep, hdestroy⟩ := hdestroy
  obtain ⟨hsecond, rfl⟩ := (discardExpired_cursor (hcursor.past_inboxKey)).1 hsweep
  rw [bind_eq_ok] at hdestroy
  obtain ⟨_, keyless, hkey, hdestroy⟩ := hdestroy
  obtain ⟨hthird, rfl⟩ := SecureStorage.delete_eq_ok.1 hkey
  rw [bind_eq_ok] at hdestroy
  obtain ⟨_, certless, hcert, hdestroy⟩ := hdestroy
  obtain ⟨hfourth, rfl⟩ := SecureStorage.delete_eq_ok.1 hcert
  obtain ⟨hfifth, rfl⟩ := SecureStorage.delete_eq_ok.1 hdestroy
  simp only [FaultyStore.fault_used] at hfirst hsecond hthird hfourth hfifth
  refine ⟨fun index hlt => ?_, rfl⟩
  have hindex : index = 0 ∨ index = 1 ∨ index = 2 ∨ index = 3 ∨ index = 4 ∨ index = 5 := by omega
  rcases hindex with rfl | rfl | rfl | rfl | rfl | rfl
  all_goals assumption

-- Past the inbox key, the destruction goes through exactly where no operation fails.
theorem destroyActingMaterial_works (hreadable : CursorReadable agora storage.held)
    (hworks : storage.fault 0 = none ∧ storage.fault 1 = none ∧
      ∀ cursor, CursorIs agora storage.held (some cursor) →
        ∀ index, 2 ≤ index → index < 6 → storage.fault index = none) :
    ∃ after, destroyActingMaterial agora storage = .ok () after := by
  obtain ⟨hdelete, hload, hrest⟩ := hworks
  obtain ⟨found, hfound⟩ := hreadable
  unfold destroyActingMaterial
  refine exists_bind_eq_ok () (SecureStorage.delete_eq_ok.2 ⟨hdelete, rfl⟩) ?_
  refine exists_bind_eq_ok found (loadCursor_eq_ok.2 ⟨?_, rfl, hfound.past_inboxKey⟩) ?_
  · rw [FaultyStore.fault_used]
    exact hload
  cases found with
  | none => exact ⟨_, pure_eq_ok.2 ⟨rfl, rfl⟩⟩
  | some cursor =>
      have hworks := hrest cursor hfound
      refine exists_bind_eq_ok () ((discardExpired_cursor hfound.past_inboxKey).2 ⟨?_, rfl⟩) ?_
      · simp only [FaultyStore.fault_used]
        exact hworks 2 (by omega) (by omega)
      refine exists_bind_eq_ok () (SecureStorage.delete_eq_ok.2 ⟨?_, rfl⟩) ?_
      · simp only [FaultyStore.fault_used]
        exact hworks 3 (by omega) (by omega)
      refine exists_bind_eq_ok () (SecureStorage.delete_eq_ok.2 ⟨?_, rfl⟩) ?_
      · simp only [FaultyStore.fault_used]
        exact hworks 4 (by omega) (by omega)
      refine ⟨_, SecureStorage.delete_eq_ok.2 ⟨?_, rfl⟩⟩
      simp only [FaultyStore.fault_used]
      exact hworks 5 (by omega) (by omega)

-- Without a cursor only the inbox key goes, so nothing may act.
theorem destroyed_uncursored (hcursor : CursorIs agora storage.held none)
    (hheld : after.held = Function.update storage.held (agora, .InboxKey) none) :
    Destroyed agora storage.held after.held ↔ CursorLeads agora storage.held := by
  have hsame : ∀ slot, slot ≠ .InboxKey → after.held (agora, slot) = storage.held (agora, slot) := by
    intro slot hslot
    rw [hheld, Function.update_of_ne (by simpa using hslot)]
  constructor
  · intro hdestroyed epoch hepoch
    rw [← hsame _ (by simp), ← hsame _ (by simp), hdestroyed.epochKey, hdestroyed.epochCert] at hepoch
    rcases hepoch with hkey | hcert
    · exact absurd rfl hkey
    · exact absurd rfl hcert
  · intro hleads
    have hnone : ∀ epoch : Epoch, storage.held (agora, .EpochKey epoch) = none ∧
        storage.held (agora, .EpochCert epoch) = none := by
      intro epoch
      by_contra hepoch
      have hfound := hleads epoch (not_and_or.1 hepoch)
      exact nomatch hcursor.unique hfound
    constructor
    · rw [hheld, Function.update_self]
    · rw [hsame _ (by simp)]
      exact hcursor
    · intro epoch
      rw [hsame _ (by simp)]
      exact (hnone epoch).1
    · intro epoch
      rw [hsame _ (by simp)]
      exact (hnone epoch).2
    all_goals exact hsame _ (by simp)

-- With a cursor its epoch goes too, so nothing else may act.
theorem destroyed_cursored {cursor : Epoch} (hcursor : CursorIs agora storage.held (some cursor))
    (hheld : after.held = destroyedAt agora storage.held cursor) :
    Destroyed agora storage.held after.held ↔ CursorLeads agora storage.held := by
  have hother : ∀ epoch : Epoch, epoch ≠ cursor →
      after.held (agora, .EpochKey epoch) = storage.held (agora, .EpochKey epoch) ∧
        after.held (agora, .EpochCert epoch) = storage.held (agora, .EpochCert epoch) := by
    intro epoch hepoch
    rw [hheld]
    unfold destroyedAt
    simp [hepoch]
  have hgone : after.held (agora, .EpochKey cursor) = none ∧
      after.held (agora, .EpochCert cursor) = none := by
    rw [hheld]
    unfold destroyedAt
    simp
  constructor
  · intro hdestroyed epoch hepoch
    by_cases hsame : epoch = cursor
    · rw [hsame]
      exact hcursor
    · obtain ⟨hkey, hcert⟩ := hother epoch hsame
      rw [← hkey, ← hcert, hdestroyed.epochKey, hdestroyed.epochCert] at hepoch
      rcases hepoch with hstored | hstored
      · exact absurd rfl hstored
      · exact absurd rfl hstored
  · intro hleads
    have hnone : ∀ epoch : Epoch, after.held (agora, .EpochKey epoch) = none ∧
        after.held (agora, .EpochCert epoch) = none := by
      intro epoch
      by_cases hsame : epoch = cursor
      · rw [hsame]
        exact hgone
      · rw [(hother epoch hsame).1, (hother epoch hsame).2]
        by_contra hepoch
        have hfound := hleads epoch (not_and_or.1 hepoch)
        exact hsame (Option.some.inj (hfound.unique hcursor))
    refine ⟨?_, ?_, fun epoch => (hnone epoch).1, fun epoch => (hnone epoch).2, ?_, ?_, ?_⟩
    all_goals
      rw [hheld]
      unfold destroyedAt
      simp

-- The destruction past the inbox key.
def destroyLed (agora : AgoraId) : Storing Unit := do
  match ← loadCursor agora with
  | none => return ()
  | some cursor =>
      discardExpired agora cursor
      SecureStorage.delete agora (.EpochKey cursor)
      SecureStorage.delete agora (.EpochCert cursor)
      SecureStorage.delete agora .EpochCursor

theorem moves_destroyLed : Moves (Confined Set.univ ∅) (destroyLed agora) := by
  have hdelete : ∀ slot, Moves (Confined Set.univ ∅) (SecureStorage.delete agora slot) :=
    fun slot => FaultyStore.moves_erase (.inl (Set.mem_univ _))
  refine moves_bind moves_loadCursor fun cursor => ?_
  cases cursor with
  | none => exact moves_pure _
  | some cursor =>
      have hsweep : Moves (Confined Set.univ ∅) (discardExpired agora cursor) :=
        moves_discardExpired.mono fun _ _ hmoves =>
          hmoves.mono (Set.subset_univ _) Set.Subset.rfl
      refine moves_bind hsweep fun _ => ?_
      exact moves_bind (hdelete _) fun _ => moves_bind (hdelete _) fun _ => hdelete _

-- A destruction that fails has changed nothing, or has deleted the inbox key for good.
theorem destroyActingMaterial_error {refusal : ProtocolError}
    (hdestroy : destroyActingMaterial agora storage = .error refusal after) :
    (storage.fault 0 ≠ none ∧ after.held = storage.held) ∨
      (storage.fault 0 = none ∧ after.held (agora, .InboxKey) = none ∧
        Confined Set.univ ∅ storage after) := by
  have hled : destroyActingMaterial agora =
      SecureStorage.delete agora .InboxKey >>= fun _ => destroyLed agora := rfl
  rw [hled, bind_eq_error] at hdestroy
  rcases hdestroy with hfailed | ⟨_, deleted, hdeleted, hdestroy⟩
  · obtain ⟨hfault, rfl⟩ := SecureStorage.delete_eq_error.1 hfailed
    refine .inl ⟨?_, rfl⟩
    rw [hfault]
    exact Option.some_ne_none refusal
  have hmoves : Moves (Confined Set.univ ∅) (SecureStorage.delete agora .InboxKey) :=
    FaultyStore.moves_erase (.inl (Set.mem_univ _))
  have hrest := moves_destroyLed.of_error hdestroy
  have hall := (hmoves.of_ok hdeleted).trans hrest
  obtain ⟨hfault, rfl⟩ := SecureStorage.delete_eq_ok.1 hdeleted
  refine .inr ⟨hfault, ?_, hall⟩
  rcases hrest (agora, .InboxKey) (Set.notMem_empty _) with hkept | ⟨_, hgone⟩
  · rw [hkept]
    exact Function.update_self _ _ _
  · exact hgone

-- A key store that signs with nothing: what it signs always fits.
def silent : KeyStore where
  createRoot _ _ _ := .error .Unavailable
  signEpochCert _ size := .ok ⟨[], Nat.zero_le size⟩
  signMigration _ size := .ok ⟨[], Nat.zero_le size⟩
  signInboxCert _ size := .ok ⟨[], Nat.zero_le size⟩

theorem signs_silent {contents : Contents}
    (hfits : ∀ pkRoot, contents (agora, .RootPublicKey) = some pkRoot →
      121 + pkRoot.length ≤ buffers.handoff) :
    Signs agora silent successorPublicKey buffers contents := by
  intro pkRoot hpkRoot inbox
  refine ⟨_, _, rfl, rfl, fun skCred rRoot => ?_⟩
  have hlength := hfits pkRoot hpkRoot
  simp only [MigrationHandoff.encodedLen, DIGEST_LEN, MigrationHandoff.LENGTH_PREFIX,
    List.length_nil]
  omega

end Destroying

section Assembling

variable [Primitives] {agora : AgoraId} {keyStore : KeyStore} {successorPublicKey : List UInt8}
  {buffers : MigrationBuffers} {storage after : SecureStorage} {written : List UInt8}

-- The part of `authorizeMigration` that comes before any deletion.
def assembleHandoff (agora : AgoraId) (keyStore : KeyStore) (successorPublicKey : List UInt8)
    (buffers : MigrationBuffers) : Storing (List UInt8) := do
  let skCred ← loadSecret32 agora .CredentialKey
  let rRoot ← loadSecret32 agora .RootOpening
  let pkRoot ← expect (← SecureStorage.load agora .RootPublicKey buffers.rootPublicKey)
    .Unavailable
  let inbox ← inboxPublicKey agora
  let signature ← expectOk
    (keyStore.signMigration ⟨agora, successorPublicKey⟩ buffers.signature)
  let retire ← expectOk
    (keyStore.signInboxCert ⟨agora, .Retire, inbox.asBytes.toList⟩ buffers.retireSignature)
  expectOk
    (MigrationHandoff.encode ⟨agora, .new skCred, .new rRoot, pkRoot, signature.val, retire.val⟩
      buffers.handoff)

theorem authorizeMigration_eq :
    authorizeMigration agora keyStore successorPublicKey buffers = do
      let written ← assembleHandoff agora keyStore successorPublicKey buffers
      destroyActingMaterial agora
      return written := by
  simp only [authorizeMigration, assembleHandoff, bind_assoc]

theorem moves_assembleHandoff :
    Moves (Confined ∅ ∅) (assembleHandoff agora keyStore successorPublicKey buffers) := by
  unfold assembleHandoff
  refine moves_bind (moves_loadSecret32 _) fun skCred => ?_
  refine moves_bind (moves_loadSecret32 _) fun rRoot => ?_
  refine moves_bind (SecureStorage.moves_load _) fun loaded => ?_
  refine moves_bind (moves_expect _ _) fun pkRoot => ?_
  have hinbox : Moves (Confined ∅ ∅) (inboxPublicKey agora) :=
    moves_bind (moves_bind (moves_loadSecret32 _) fun _ => moves_pure _) fun _ => moves_pure _
  refine moves_bind hinbox fun inbox => ?_
  refine moves_bind (moves_expectOk _) fun signature => ?_
  exact moves_bind (moves_expectOk _) fun retire => moves_expectOk _

-- A handoff is assembled by four loads: it finds an inbox key, and its two certificates fit.
theorem assembleHandoff_ok
    (hassemble : assembleHandoff agora keyStore successorPublicKey buffers storage =
      .ok written after) :
    after.held = storage.held ∧ (∀ index, after.fault index = storage.fault (index + 4)) ∧
      storage.held (agora, .InboxKey) ≠ none ∧
      ∀ pkRoot, storage.held (agora, .RootPublicKey) = some pkRoot →
        121 + pkRoot.length ≤ buffers.handoff := by
  unfold assembleHandoff at hassemble
  rw [bind_eq_ok] at hassemble
  obtain ⟨skCred, first, hcred, hassemble⟩ := hassemble
  obtain ⟨_, rfl⟩ := loadSecret32_ok hcred
  rw [bind_eq_ok] at hassemble
  obtain ⟨rRoot, second, hopening, hassemble⟩ := hassemble
  obtain ⟨_, rfl⟩ := loadSecret32_ok hopening
  rw [bind_eq_ok] at hassemble
  obtain ⟨loaded, third, hpublic, hassemble⟩ := hassemble
  obtain ⟨_, rfl, hheld, _⟩ := SecureStorage.load_eq_ok.1 hpublic
  rw [expect_bind_eq_ok] at hassemble
  obtain ⟨found, rfl, hassemble⟩ := hassemble
  rw [bind_eq_ok] at hassemble
  obtain ⟨inbox, fourth, hinbox, hassemble⟩ := hassemble
  obtain ⟨secret, hsecret, _⟩ := bind_pure_eq_ok.1 hinbox
  obtain ⟨bytes, hload, _⟩ := bind_pure_eq_ok.1 hsecret
  obtain ⟨hstored, rfl⟩ := loadSecret32_ok hload
  rw [expectOk_bind_eq_ok] at hassemble
  obtain ⟨signature, _, hassemble⟩ := hassemble
  rw [expectOk_bind_eq_ok] at hassemble
  obtain ⟨retire, _, hassemble⟩ := hassemble
  obtain ⟨hencode, rfl⟩ := expectOk_eq_ok.1 hassemble
  refine ⟨rfl, fun index => ?_, ?_, ?_⟩
  · simp only [FaultyStore.fault_used]
  · intro hnone
    exact nomatch hnone.symm.trans hstored
  · intro pkRoot hpkRoot
    obtain rfl := Option.some.inj (hpkRoot.symm.trans hheld)
    have hfits := MigrationHandoff.encodedLen_le_of_encode hencode
    simp only [MigrationHandoff.encodedLen, DIGEST_LEN, MigrationHandoff.LENGTH_PREFIX] at hfits
    omega

end Assembling

section Migrating

variable [Primitives]

-- The call gets as far as deleting the inbox key.
def BeginsDestroying (agora : AgoraId) (keyStore : KeyStore) (successorPublicKey : List UInt8)
    (buffers : MigrationBuffers) (storage : SecureStorage) : Prop :=
  storage.fault 4 = none ∧ ∃ written middle,
    assembleHandoff agora keyStore successorPublicKey buffers storage = .ok written middle

-- A call that returns has destroyed what acts; one that refuses has changed nothing, or the
-- same call again, on a storage that works and with any key store that signs, does the rest.
def MigrationDestroys (agora : AgoraId) (keyStore : KeyStore) (successorPublicKey : List UInt8)
    (buffers : MigrationBuffers) (storage : SecureStorage) : Prop :=
  match authorizeMigration agora keyStore successorPublicKey buffers storage with
  | .ok _ after => Destroyed agora storage.held after.held
  | .error _ after => after.held = storage.held ∨
      ∀ signer, Signs agora signer successorPublicKey buffers after.held →
        ∃ written final, authorizeMigration agora signer successorPublicKey buffers
          ⟨after.held, []⟩ = .ok written final ∧ Destroyed agora storage.held final.held

variable {agora : AgoraId} {keyStore : KeyStore} {successorPublicKey : List UInt8}
  {buffers : MigrationBuffers} {storage after : SecureStorage} {written : List UInt8}

-- The state decides: a call that goes on to delete destroys everything exactly where the cursor
-- leads to all that acts, and where no operation fails past the inbox key.
theorem migrationDestroys_of_readable (hreadable : CursorReadable agora storage.held) :
    MigrationDestroys agora keyStore successorPublicKey buffers storage ↔
      (BeginsDestroying agora keyStore successorPublicKey buffers storage →
        CursorLeads agora storage.held ∧ RestWorks agora storage) := by
  unfold MigrationDestroys
  cases hauthorize : authorizeMigration agora keyStore successorPublicKey buffers storage with
  | ok written after =>
      simp only
      rw [authorizeMigration_eq, bind_eq_ok] at hauthorize
      obtain ⟨handoff, middle, hassemble, hrest⟩ := hauthorize
      obtain ⟨⟨⟩, hdestroy, _⟩ := bind_pure_eq_ok.1 hrest
      obtain ⟨hheld, hfaults, _, _⟩ := assembleHandoff_ok hassemble
      obtain ⟨cursor, hcursor⟩ := hreadable
      have hmiddle : CursorIs agora middle.held cursor := by
        rw [hheld]
        exact hcursor
      cases cursor with
      | none =>
          obtain ⟨hdelete, hload, hafter⟩ := destroyActingMaterial_uncursored hmiddle hdestroy
          rw [hheld] at hafter
          rw [hfaults] at hdelete hload
          have hworks : RestWorks agora storage :=
            ⟨hload, fun cursor hsome => nomatch hcursor.unique hsome⟩
          rw [destroyed_uncursored hcursor hafter]
          exact ⟨fun hleads _ => ⟨hleads, hworks⟩, fun hall => (hall ⟨hdelete, _, _, hassemble⟩).1⟩
      | some cursor =>
          obtain ⟨hnone, hafter⟩ := destroyActingMaterial_cursored hmiddle hdestroy
          rw [hheld] at hafter
          have hworks : ∀ index, 4 ≤ index → index < 10 → storage.fault index = none := by
            intro index hle hlt
            have hindex := hnone (index - 4) (by omega)
            rw [hfaults] at hindex
            rwa [Nat.sub_add_cancel hle] at hindex
          have hrestWorks : RestWorks agora storage :=
            ⟨hworks 5 (by omega) (by omega),
              fun _ _ index hle hlt => hworks index (by omega) hlt⟩
          rw [destroyed_cursored hcursor hafter]
          exact ⟨fun hleads _ => ⟨hleads, hrestWorks⟩,
            fun hall => (hall ⟨hworks 4 (by omega) (by omega), _, _, hassemble⟩).1⟩
  | error refusal after =>
      simp only
      rw [authorizeMigration_eq, bind_eq_error] at hauthorize
      rcases hauthorize with hassemble | ⟨handoff, middle, hassemble, hrest⟩
      · have hheld := FaultyStore.confined_empty.1 (moves_assembleHandoff.of_error hassemble)
        refine ⟨fun _ hbegins => ?_, fun _ => .inl hheld⟩
        obtain ⟨_, _, _, hok⟩ := hbegins
        rw [hassemble] at hok
        cases hok
      obtain ⟨hheld, hfaults, hinbox, hfits⟩ := assembleHandoff_ok hassemble
      have hdestroy := bind_pure_eq_error.1 hrest
      rcases destroyActingMaterial_error hdestroy with ⟨hfault, hsame⟩ | ⟨hfault, hgone, hconfined⟩
      · rw [hfaults] at hfault
        refine ⟨fun _ hbegins => absurd hbegins.1 hfault, fun _ => .inl ?_⟩
        rw [hsame, hheld]
      · rw [hfaults] at hfault
        constructor
        · rintro (hsame | hretry)
          · rw [hsame] at hgone
            exact absurd hgone hinbox
          · -- No key store helps a call that finds no inbox key.
            obtain ⟨_, final, hok, _⟩ := hretry silent (signs_silent (fun pkRoot hpkRoot => by
              have hkept := hconfined.held_eq_of_ne_none (by rw [hpkRoot]; simp)
                (Set.notMem_empty (agora, Slot.RootPublicKey))
              rw [hpkRoot, hheld] at hkept
              exact hfits pkRoot hkept.symm))
            rw [authorizeMigration_eq, bind_eq_ok] at hok
            obtain ⟨_, _, hagain, _⟩ := hok
            obtain ⟨_, _, hstored, _⟩ := assembleHandoff_ok hagain
            exact absurd hgone hstored
        · intro hall
          obtain ⟨_, hload, hrestWorks⟩ := hall ⟨hfault, _, _, hassemble⟩
          have hready : CursorReadable agora middle.held := by
            rw [hheld]
            exact hreadable
          obtain ⟨done, hdone⟩ := destroyActingMaterial_works hready
            ⟨by rw [hfaults]; exact hfault, by rw [hfaults]; exact hload,
              fun cursor hcursor index hle hlt => by
                rw [hheld] at hcursor
                rw [hfaults]
                exact hrestWorks cursor hcursor _ (by omega) (by omega)⟩
          rw [hdone] at hdestroy
          cases hdestroy

-- A creation does not touch what acts, nor the cursor.
theorem CursorLeads.create {keyStore : KeyStore} {entropy : CredentialEntropy}
    {publicKeySize bindingSize : Nat} {contents : Contents}
    {faults : List (Option ProtocolError)} (hleads : CursorLeads agora contents) :
    CursorLeads agora (perform agora contents
      ⟨.create keyStore entropy publicKeySize bindingSize, faults⟩).2 := by
  have hkept : ∀ key, key ∈ acting agora ∨ key = (agora, Slot.EpochCursor) →
      (perform agora contents ⟨.create keyStore entropy publicKeySize bindingSize, faults⟩).2 key =
        contents key := by
    intro key hkey
    rw [perform_snd]
    exact (moves_run_create agora keyStore entropy publicKeySize bindingSize
      ⟨contents, faults⟩).held_eq (Set.notMem_empty _) (durable_disjoint hkey)
  intro epoch hstored
  have hacting : ∀ slot, slot = .EpochKey epoch ∨ slot = .EpochCert epoch →
      (agora, slot) ∈ acting agora := by
    rintro _ (rfl | rfl) <;> simp [acting, Slot.actsIn]
  rw [hkept _ (.inl (hacting _ (.inl rfl))), hkept _ (.inl (hacting _ (.inr rfl)))] at hstored
  exact (hkept _ (.inr rfl)).trans (hleads epoch hstored)

-- A roll that returns leaves the cursor at its own epoch, and nothing stored of any other.
theorem CursorLeads.roll {keyStore : KeyStore} {current : Epoch} {epochSecret : FreshEntropy}
    {recordSize : Nat} {contents : Contents} {faults : List (Option ProtocolError)}
    (hleads : CursorLeads agora contents)
    (hok : (perform agora contents
      ⟨.rollEpoch keyStore current epochSecret recordSize, faults⟩).1 = .ok ()) :
    CursorLeads agora
      (perform agora contents ⟨.rollEpoch keyStore current epochSecret recordSize, faults⟩).2 := by
  obtain ⟨after, hroll, hafter⟩ := exists_of_perform_ok hok
  rw [hafter]
  obtain ⟨cursor, discarded, record, hcursor, hbehind, _, herased, hheld⟩ := rollEpoch_ok hroll
  intro epoch hstored
  by_cases hepoch : epoch = current
  · rw [hepoch, CursorIs, hheld, Function.update_self]
    rfl
  -- Another epoch's slot was stored before the roll, under the cursor then, and was swept.
  exfalso
  have hgone : ∀ slot : Slot, slot.actsIn = some epoch →
      (contents (agora, slot) ≠ none → CursorIs agora contents (some epoch)) →
        after.held (agora, slot) = none := by
    intro slot hslot hled
    have hother : ∀ written : Slot, written.actsIn ≠ some epoch →
        (agora, slot) ≠ (agora, written) := by
      intro written hwritten heq
      rw [(Prod.mk.inj heq).2] at hslot
      exact hwritten hslot
    have hcurrent : (some current : Option Epoch) ≠ some epoch :=
      fun heq => hepoch (Option.some.inj heq).symm
    rw [hheld, Function.update_of_ne (hother .EpochCursor (by simp [Slot.actsIn])),
      Function.update_of_ne (hother (.EpochCert current) hcurrent),
      Function.update_of_ne (hother (.EpochKey current) hcurrent)]
    by_cases hswept : (agora, slot) ∈ swept agora cursor current
    · exact herased.gone _ hswept
    · rw [herased.kept _ hswept]
      by_contra hheldBefore
      have hsame : cursor = some epoch := CursorIs.unique hcursor (hled hheldBefore)
      have hle := hbehind epoch hsame
      have hne : epoch.get ≠ current.get := fun heq => hepoch (Epoch.ext heq)
      exact hswept (mem_swept.2 ⟨rfl, epoch, epoch, hsame, hslot, le_refl _,
        Nat.lt_of_le_of_ne hle hne⟩)
  rcases hstored with hkey | hcert
  · exact hkey (hgone (.EpochKey epoch) rfl fun hheldBefore => hleads epoch (.inl hheldBefore))
  · exact hcert (hgone (.EpochCert epoch) rfl fun hheldBefore => hleads epoch (.inr hheldBefore))

-- The device a history of calls leads to, with the faults a migration then meets.
def reached (agora : AgoraId) (start : Contents) (calls : List Call)
    (faults : List (Option ProtocolError)) : SecureStorage :=
  ⟨final (perform agora) start calls, faults⟩

theorem migration_destroys_iff {start : Contents} (hblank : BlankEpochs agora start)
    (calls : List Call) (faults : List (Option ProtocolError)) (keyStore : KeyStore)
    (successorPublicKey : List UInt8) (buffers : MigrationBuffers) :
    MigrationDestroys agora keyStore successorPublicKey buffers
        (reached agora start calls faults) ↔
      (BeginsDestroying agora keyStore successorPublicKey buffers
          (reached agora start calls faults) →
        CursorLeads agora (reached agora start calls faults).held ∧
          RestWorks agora (reached agora start calls faults)) := by
  have hreadable : CursorReadable agora start := ⟨none, hblank.1⟩
  exact migrationDestroys_of_readable (cursorReadable_final hreadable calls)

end Migrating

end Nymora.Protocol.Credential

namespace Nymora.Protocol.Credential.Handover.Sample

open Nymora.Core
open Nymora.Crypto
open Nymora.Ports
open Runs
open Expiry.Sample
open scoped Nymora.Crypto.Reference

def three : Epoch := season 3 (by decide)

theorem rootKey_fits {publicKeySize : Nat} (hsize : 32 ≤ publicKeySize) :
    (Signature.SigningSeed.mint (Bytes.replicate 32 2)).publicKey.toList.length ≤
      publicKeySize := by
  simpa using hsize

-- Signs like the other sample, and creates the root its fixed seed names.
def rootStore : KeyStore :=
  { keyStore with
    createRoot := fun _ publicKeySize _ =>
      let seed := Signature.SigningSeed.mint (Bytes.replicate 32 2)
      if hsize : 32 ≤ publicKeySize then
        .ok ⟨⟨seed.publicKey.toList, rootKey_fits hsize⟩, none⟩
      else
        .error .Malformed }

def creation : Call :=
  ⟨.create rootStore ⟨Bytes.replicate 32 4, Bytes.replicate 32 5, Bytes.replicate 32 6⟩ 32 0, []⟩

def successor : List UInt8 := List.replicate 32 7

def buffers : MigrationBuffers := ⟨32, 64, 64, 281⟩

-- The roll to five loses its cursor store, so the cursor still names three.
def behind : List Call :=
  [creation, rollTo three [], rollTo five (List.replicate 8 none ++ [some .Unavailable])]

-- The load of the cursor, right after the inbox key is deleted, fails.
def cutOff : List (Option ProtocolError) := List.replicate 5 none ++ [some .Unavailable]

theorem beginsDestroying_of_assembled {storage : SecureStorage} (hfault : storage.fault 4 = none)
    (hassembled : (match assembleHandoff agora rootStore successor buffers storage with
      | .ok _ _ => true
      | .error _ _ => false) = true) :
    BeginsDestroying agora rootStore successor buffers storage := by
  refine ⟨hfault, ?_⟩
  cases hresult : assembleHandoff agora rootStore successor buffers storage with
  | ok written middle => exact ⟨written, middle, rfl⟩
  | error refusal middle =>
      rw [hresult] at hassembled
      cases hassembled

theorem readable_reached (calls : List Call) (faults : List (Option ProtocolError)) :
    CursorReadable agora (reached agora blank calls faults).held := by
  have hblank : CursorReadable agora blank := ⟨none, blank_blankEpochs.1⟩
  exact cursorReadable_final hblank calls

-- One migration leaves a key behind and returns; another refuses and cannot be finished.
theorem migrations_leave_acting_material :
    ¬ MigrationDestroys agora rootStore successor buffers (reached agora blank behind []) ∧
      ¬ MigrationDestroys agora rootStore successor buffers
        (reached agora blank [creation, rollTo three []] cutOff) := by
  constructor
  · rw [migrationDestroys_of_readable (readable_reached behind [])]
    intro hall
    have hbegins : BeginsDestroying agora rootStore successor buffers
        (reached agora blank behind []) :=
      beginsDestroying_of_assembled rfl (by decide +kernel)
    have hstored : (reached agora blank behind []).held (agora, .EpochKey five) ≠ none := by
      decide +kernel
    have hcursor : (reached agora blank behind []).held (agora, .EpochCursor) =
        some three.toLeBytes := by decide +kernel
    have hleads := (hall hbegins).1 five (.inl hstored)
    have hsame : three = five := Option.some.inj (CursorIs.unique hcursor hleads)
    exact absurd hsame (by decide)
  · rw [migrationDestroys_of_readable (readable_reached _ _)]
    intro hall
    have hbegins : BeginsDestroying agora rootStore successor buffers
        (reached agora blank [creation, rollTo three []] cutOff) :=
      beginsDestroying_of_assembled rfl (by decide +kernel)
    have hworks : cutOff.getD 5 none = none := (hall hbegins).2.1
    exact absurd hworks (by decide)

-- A device that rolled to three and then to five.
def rolled : List Call := [creation, rollTo three [], rollTo five []]

theorem rolled_starts : (perform agora (final (perform agora) blank [creation])
      (rollTo three [])).1 = .ok () ∧
    (perform agora (final (perform agora) blank [creation, rollTo three []])
      (rollTo five [])).1 = .ok () ∧
    (reached agora blank rolled []).held (agora, .EpochKey five) ≠ none ∧
    (match assembleHandoff agora rootStore successor buffers (reached agora blank rolled []) with
      | .ok _ _ => true
      | .error _ _ => false) = true := by
  decide +kernel

theorem rolled_leads : CursorLeads agora (reached agora blank rolled []).held := by
  have hblank : CursorLeads agora blank := by
    intro epoch hstored
    rcases hstored with hkey | hcert
    · exact absurd rfl hkey
    · exact absurd rfl hcert
  have hcreated : CursorLeads agora (final (perform agora) blank [creation]) := hblank.create
  have hthree : CursorLeads agora (final (perform agora) blank [creation, rollTo three []]) :=
    hcreated.roll rolled_starts.1
  exact hthree.roll rolled_starts.2.1

-- Its migration gets as far as the inbox key, and destroys what acts.
theorem migration_destroys_iff_rolled :
    (reached agora blank rolled []).held (agora, .EpochKey five) ≠ none ∧
      BeginsDestroying agora rootStore successor buffers (reached agora blank rolled []) ∧
      MigrationDestroys agora rootStore successor buffers (reached agora blank rolled []) := by
  refine ⟨rolled_starts.2.2.1, beginsDestroying_of_assembled rfl rolled_starts.2.2.2, ?_⟩
  apply (migration_destroys_iff blank_blankEpochs rolled [] rootStore successor buffers).2
  exact fun _ => ⟨rolled_leads, rfl, fun _ _ _ _ _ => rfl⟩

end Nymora.Protocol.Credential.Handover.Sample
