import Nymora.Protocol.Credential

namespace Nymora.Protocol.Credential

open Nymora.Core
open Nymora.Crypto
open Nymora.Ports
open FaultyStore (Confined Erased)
open Method

variable {agora : AgoraId} {storage after : SecureStorage} {current : Epoch}

-- The slots that act for the credential: the keys and certificates of all epochs.
def acting (agora : AgoraId) : Set (AgoraId × Slot) :=
  {key | key.1 = agora ∧ key.2.actsIn ≠ none}

def actingIn (agora : AgoraId) (epoch : Epoch) : Set (AgoraId × Slot) :=
  {key | key.1 = agora ∧ key.2.actsIn = some epoch}

-- What a sweep from a cursor covers; without a cursor it covers nothing.
def swept (agora : AgoraId) (cursor : Option Epoch) (current : Epoch) : Set (AgoraId × Slot) :=
  {key | key.1 = agora ∧ ∃ first epoch, cursor = some first ∧ key.2.actsIn = some epoch ∧
    first.get ≤ epoch.get ∧ epoch.get < current.get}

def actingAmong (agora : AgoraId) (epochs : List Epoch) : Set (AgoraId × Slot) :=
  {key | key.1 = agora ∧ ∃ epoch ∈ epochs, key.2.actsIn = some epoch}

theorem mem_swept {cursor : Option Epoch} {key : AgoraId × Slot} :
    key ∈ swept agora cursor current ↔ key.1 = agora ∧ ∃ first epoch, cursor = some first ∧
      key.2.actsIn = some epoch ∧ first.get ≤ epoch.get ∧ epoch.get < current.get := Iff.rfl

theorem mem_actingAmong {epochs : List Epoch} {key : AgoraId × Slot} :
    key ∈ actingAmong agora epochs ↔
      key.1 = agora ∧ ∃ epoch ∈ epochs, key.2.actsIn = some epoch := Iff.rfl

-- The cursor slot is empty or holds an epoch.
def CursorIs (agora : AgoraId) (contents : Contents) (cursor : Option Epoch) : Prop :=
  contents (agora, .EpochCursor) = cursor.map Epoch.toLeBytes

def CursorReadable (agora : AgoraId) (contents : Contents) : Prop :=
  ∃ cursor, CursorIs agora contents cursor

theorem CursorIs.unique {contents : Contents} {first second : Option Epoch}
    (hfirst : CursorIs agora contents first) (hsecond : CursorIs agora contents second) :
    first = second := by
  have hbytes : first.map Epoch.toLeBytes = second.map Epoch.toLeBytes := hfirst.symm.trans hsecond
  exact Option.map_injective (fun _ _ heq => Epoch.toLeBytes_inj.1 heq) hbytes

theorem cursor_notMem_acting : (agora, Slot.EpochCursor) ∉ acting agora := by
  intro hmem
  exact hmem.2 rfl

theorem cursor_notMem_actingIn {epoch : Epoch} : (agora, Slot.EpochCursor) ∉ actingIn agora epoch := by
  intro hmem
  exact nomatch hmem.2

theorem actingIn_subset_acting {epoch : Epoch} : actingIn agora epoch ⊆ acting agora := by
  intro key hmem
  refine ⟨hmem.1, ?_⟩
  rw [hmem.2]
  exact Option.some_ne_none epoch

theorem checkedSpan_eq_ok {cursor first : Epoch} :
    checkedSpan cursor current = .ok first ↔ first = cursor ∧ cursor.get ≤ current.get ∧
      current.get - cursor.get ≤ MAX_EPOCH_GAP := by
  unfold checkedSpan
  split
  · next hspan =>
      constructor
      · intro herror
        cases herror
      · intro hfirst
        omega
  · next hspan =>
      rw [Except.ok.injEq]
      constructor
      · intro hcursor
        exact ⟨hcursor.symm, by omega, by omega⟩
      · intro hfirst
        exact hfirst.1.symm

theorem checkedReach_le {cursor : Option Epoch} {first : Epoch}
    (hreach : checkedReach cursor current = .ok ()) (hcursor : cursor = some first) :
    first.get ≤ current.get := by
  subst hcursor
  unfold checkedReach at hreach
  simp only at hreach
  split at hreach
  · next hsame => rw [hsame]
  · cases hspan : checkedSpan first current with
    | error refusal =>
        rw [hspan] at hreach
        cases hreach
    | ok found => exact (checkedSpan_eq_ok.1 hspan).2.1

theorem loadCursor_eq_ok {cursor : Option Epoch} :
    loadCursor agora storage = .ok cursor after ↔ storage.fault 0 = none ∧
      after = storage.used storage.held ∧ CursorIs agora storage.held cursor := by
  unfold loadCursor CursorIs
  rw [bind_eq_ok]
  simp only [SecureStorage.load_eq_ok]
  constructor
  · rintro ⟨value, middle, ⟨hfault, rfl, hheld, -⟩, hvalue⟩
    cases value with
    | none =>
        obtain ⟨rfl, rfl⟩ := pure_eq_ok.1 hvalue
        exact ⟨hfault, rfl, hheld⟩
    | some bytes =>
        simp only at hvalue
        split at hvalue
        · next hlength =>
            obtain ⟨rfl, rfl⟩ := pure_eq_ok.1 hvalue
            refine ⟨hfault, rfl, hheld.trans ?_⟩
            rw [Option.map_some, Epoch.toLeBytes_fromLeBytes]
        · exact absurd hvalue throw_eq_ok
  · rintro ⟨hfault, rfl, hheld⟩
    refine ⟨_, _, ⟨hfault, rfl, hheld, ?_⟩, ?_⟩
    · intro value hvalue
      obtain ⟨epoch, -, rfl⟩ := Option.map_eq_some_iff.1 hvalue
      exact le_of_eq (Epoch.length_toLeBytes epoch)
    · cases cursor with
      | none => exact pure_eq_ok.2 ⟨rfl, rfl⟩
      | some epoch =>
          simp only [Option.map_some]
          rw [dif_pos (Epoch.length_toLeBytes epoch), Epoch.fromLeBytes_toLeBytes]
          exact pure_eq_ok.2 ⟨rfl, rfl⟩

theorem loadSecret32_ok {slot : Slot} {secret : Bytes 32}
    (hload : loadSecret32 agora slot storage = .ok secret after) :
    storage.held (agora, slot) = some secret.toList ∧ after = storage.used storage.held := by
  unfold loadSecret32 at hload
  rw [bind_eq_ok] at hload
  obtain ⟨value, middle, hread, hvalue⟩ := hload
  obtain ⟨_, rfl, hheld, _⟩ := SecureStorage.load_eq_ok.1 hread
  cases value with
  | none => exact absurd hvalue throw_eq_ok
  | some bytes =>
      obtain ⟨hbytes, rfl⟩ := expect_eq_ok.1 hvalue
      obtain ⟨hlength, rfl⟩ : ∃ hlength, (⟨bytes, hlength⟩ : Bytes 32) = secret := by
        unfold Bytes.ofList? at hbytes
        split at hbytes
        · next hlength => exact ⟨hlength, Option.some.inj hbytes⟩
        · cases hbytes
      exact ⟨hheld, rfl⟩

section Confinement

variable {erasable writable : Set (AgoraId × Slot)}

theorem moves_loadCursor : Moves (Confined erasable writable) (loadCursor agora) := by
  apply moves_bind (SecureStorage.moves_load 8)
  intro value
  cases value with
  | none => exact moves_pure _
  | some bytes =>
      simp only
      split
      · exact moves_pure _
      · intro store
        exact Std.Refl.refl store

theorem moves_loadSecret32 (slot : Slot) :
    Moves (Confined erasable writable) (loadSecret32 agora slot) := by
  apply moves_bind (SecureStorage.moves_load 32)
  intro value
  cases value with
  | none =>
      intro store
      exact Std.Refl.refl store
  | some bytes => exact moves_expect _ _

-- Whatever fails, a sweep only takes acting material away.
theorem moves_discardExpired :
    Moves (Confined (acting agora) ∅) (discardExpired agora current) := by
  apply moves_bind moves_loadCursor
  intro cursor
  cases cursor with
  | none => exact moves_pure _
  | some cursor =>
      simp only [List.forM_eq_forM]
      refine moves_bind (moves_expectOk _) fun first => moves_forM fun epoch _ => ?_
      have hkey : (agora, Slot.EpochKey epoch) ∈ acting agora := ⟨rfl, Option.some_ne_none epoch⟩
      have hcert : (agora, Slot.EpochCert epoch) ∈ acting agora := ⟨rfl, Option.some_ne_none epoch⟩
      exact moves_bind (FaultyStore.moves_erase (.inl hkey)) fun _ =>
        FaultyStore.moves_erase (.inl hcert)

end Confinement

section Sweeping

-- A sweep that met no fault has emptied every slot of its epochs.
theorem erased_of_sweep {epochs : List Epoch}
    (hsweep : Loop (fun epoch before next => (do
      SecureStorage.delete agora (.EpochKey epoch)
      SecureStorage.delete agora (.EpochCert epoch)) before = .ok ⟨⟩ next) epochs storage after) :
    Erased (actingAmong agora epochs) storage after := by
  induction hsweep with
  | nil store =>
      apply (FaultyStore.erased_empty rfl).congr
      intro key
      simp [mem_actingAmong]
  | @cons epoch epochs before middle after hstep _ ih =>
      rw [bind_eq_ok] at hstep
      obtain ⟨_, between, hkey, hcert⟩ := hstep
      have hboth := (FaultyStore.erased_of_erase hkey).trans (FaultyStore.erased_of_erase hcert)
      apply (hboth.trans ih).congr
      rintro ⟨owner, slot⟩
      simp only [mem_actingAmong, List.exists_mem_cons_iff, and_or_left, Set.mem_union,
        Set.mem_singleton_iff, Prod.mk.injEq]
      rw [Slot.actsIn_eq_some, and_or_left]

-- Two operations for every epoch of the sweep.
theorem spent_of_sweep {epochs : List Epoch}
    (hsweep : Loop (fun epoch before next => (do
      SecureStorage.delete agora (.EpochKey epoch)
      SecureStorage.delete agora (.EpochCert epoch)) before = .ok ⟨⟩ next) epochs storage after) :
    FaultyStore.Spent (2 * epochs.length) storage after := by
  induction hsweep with
  | nil store => exact FaultyStore.Spent.nothing store
  | @cons epoch epochs before middle after hstep _ ih =>
      rw [bind_eq_ok] at hstep
      obtain ⟨_, between, hkey, hcert⟩ := hstep
      obtain ⟨hfirst, rfl⟩ := SecureStorage.delete_eq_ok.1 hkey
      obtain ⟨hsecond, rfl⟩ := SecureStorage.delete_eq_ok.1 hcert
      have hspent := ((FaultyStore.spent_used hfirst).trans (FaultyStore.spent_used hsecond)).trans ih
      rwa [List.length_cons, Nat.mul_add, Nat.add_comm]

-- How many deletes a sweep from a cursor makes.
def sweepLength (cursor : Option Epoch) (current : Epoch) : Nat :=
  match cursor with
  | none => 0
  | some first => 2 * (current.get - first.get)

theorem discardExpired_spent {cursor : Option Epoch}
    (hdiscard : discardExpired agora current storage = .ok () after)
    (hcursor : CursorIs agora storage.held cursor) :
    FaultyStore.Spent (1 + sweepLength cursor current) storage after := by
  unfold discardExpired at hdiscard
  rw [bind_eq_ok] at hdiscard
  obtain ⟨found, middle, hload, hsweep⟩ := hdiscard
  obtain ⟨hfault, rfl, hfound⟩ := loadCursor_eq_ok.1 hload
  obtain rfl := CursorIs.unique hfound hcursor
  have hloaded : FaultyStore.Spent 1 storage (storage.used storage.held) :=
    FaultyStore.spent_used hfault
  cases found with
  | none =>
      obtain ⟨-, rfl⟩ := pure_eq_ok.1 hsweep
      exact hloaded
  | some cursor =>
      simp only [List.forM_eq_forM] at hsweep
      rw [expectOk_bind_eq_ok] at hsweep
      obtain ⟨first, hspan, hsweep⟩ := hsweep
      obtain ⟨rfl, _, _⟩ := checkedSpan_eq_ok.1 hspan
      have hswept := spent_of_sweep (forM_eq_ok.1 hsweep)
      rw [Epoch.length_upTo] at hswept
      exact hloaded.trans hswept

theorem discardExpired_ok (hdiscard : discardExpired agora current storage = .ok () after) :
    ∃ cursor, CursorIs agora storage.held cursor ∧
      (∀ first, cursor = some first → first.get ≤ current.get) ∧
      Erased (swept agora cursor current) storage after := by
  unfold discardExpired at hdiscard
  rw [bind_eq_ok] at hdiscard
  obtain ⟨cursor, middle, hload, hsweep⟩ := hdiscard
  obtain ⟨_, rfl, hcursor⟩ := loadCursor_eq_ok.1 hload
  refine ⟨cursor, hcursor, ?_⟩
  cases cursor with
  | none =>
      obtain ⟨-, rfl⟩ := pure_eq_ok.1 hsweep
      have hnone : Erased ∅ storage (storage.used storage.held) := FaultyStore.erased_empty rfl
      refine ⟨fun first hfirst => (nomatch hfirst), hnone.congr ?_⟩
      intro key
      simp [mem_swept]
  | some cursor =>
      simp only [List.forM_eq_forM] at hsweep
      rw [expectOk_bind_eq_ok] at hsweep
      obtain ⟨first, hspan, hsweep⟩ := hsweep
      obtain ⟨rfl, hle, _⟩ := checkedSpan_eq_ok.1 hspan
      have hloop := erased_of_sweep (forM_eq_ok.1 hsweep)
      have herased : Erased (actingAmong agora (first.upTo current)) storage after :=
        ⟨hloop.gone, hloop.kept⟩
      refine ⟨fun _ hfirst => Option.some.inj hfirst ▸ hle, ?_⟩
      apply herased.congr
      intro key
      simp only [mem_swept, mem_actingAmong, Option.some.injEq, Epoch.mem_upTo]
      constructor
      · rintro ⟨hagora, _, epoch, rfl, hepoch, hspan⟩
        exact ⟨hagora, epoch, hspan, hepoch⟩
      · rintro ⟨hagora, epoch, hspan, hepoch⟩
        exact ⟨hagora, first, epoch, rfl, hepoch, hspan⟩

-- A sweep that finds no cursor deletes nothing.
theorem discardExpired_uncursored {result : Unit} (hcursor : CursorIs agora storage.held none) :
    discardExpired agora current storage = .ok result after ↔
      storage.fault 0 = none ∧ after = storage.used storage.held := by
  unfold discardExpired
  rw [bind_eq_ok]
  simp only [loadCursor_eq_ok]
  constructor
  · rintro ⟨found, middle, ⟨hfault, rfl, hfound⟩, hsweep⟩
    obtain rfl := CursorIs.unique hfound hcursor
    exact ⟨hfault, (pure_eq_ok.1 hsweep).2⟩
  · rintro ⟨hfault, rfl⟩
    exact ⟨none, _, ⟨hfault, rfl, hcursor⟩, pure_eq_ok.2 ⟨rfl, rfl⟩⟩

-- A sweep up to the cursor itself deletes nothing either.
theorem discardExpired_cursor {cursor : Epoch} {result : Unit}
    (hcursor : CursorIs agora storage.held (some cursor)) :
    discardExpired agora cursor storage = .ok result after ↔
      storage.fault 0 = none ∧ after = storage.used storage.held := by
  have hspan : checkedSpan cursor cursor = .ok cursor :=
    checkedSpan_eq_ok.2 ⟨rfl, le_refl _, by omega⟩
  unfold discardExpired
  rw [bind_eq_ok]
  simp only [loadCursor_eq_ok]
  constructor
  · rintro ⟨found, middle, ⟨hfault, rfl, hfound⟩, hsweep⟩
    obtain rfl := CursorIs.unique hfound hcursor
    simp only [hspan] at hsweep
    rw [expectOk_bind_eq_ok] at hsweep
    obtain ⟨first, hfirst, hsweep⟩ := hsweep
    cases hfirst
    rw [Epoch.upTo_self] at hsweep
    exact ⟨hfault, (pure_eq_ok.1 hsweep).2⟩
  · rintro ⟨hfault, rfl⟩
    refine ⟨some cursor, _, ⟨hfault, rfl, hcursor⟩, ?_⟩
    simp only
    rw [expectOk_bind_eq_ok]
    refine ⟨cursor, hspan, ?_⟩
    rw [Epoch.upTo_self]
    exact pure_eq_ok.2 ⟨rfl, rfl⟩

end Sweeping

section Signing

theorem signEpochRecord_ok {keyStore : KeyStore} {epoch : Epoch} {publicKey record : List UInt8} {size : Nat}
    (hsign : signEpochRecord agora keyStore epoch publicKey size = .ok record) :
    ∃ room signature, keyStore.signEpochCert ⟨agora, epoch, publicKey⟩ room = .ok signature ∧
      record = Framing.frame 8 publicKey ++ Framing.frame 8 signature.val := by
  unfold signEpochRecord at hsign
  simp only at hsign
  split at hsign
  · cases hsign
  · rw [except_bind_eq_ok] at hsign
    obtain ⟨signature, hsignature, hrecord⟩ := hsign
    exact ⟨_, signature, hsignature, except_pure_eq_ok.1 hrecord⟩

end Signing

section Creating

-- The slots a creation writes; none of them belongs to an epoch.
def durable (agora : AgoraId) : Set (AgoraId × Slot) :=
  {(agora, .CredentialKey), (agora, .RootOpening), (agora, .RootPublicKey), (agora, .InboxKey)}

theorem durable_disjoint {key : AgoraId × Slot}
    (hkey : key ∈ acting agora ∨ key = (agora, .EpochCursor)) : key ∉ durable agora := by
  rintro (rfl | rfl | rfl | rfl) <;> rcases hkey with ⟨_, hepoch⟩ | hcursor
  all_goals first | exact hepoch rfl | cases hcursor

theorem moves_storeCredentialMaterial {skCred : CredentialKey} {rRoot : RootOpening}
    {pkRoot : List UInt8} {skInbox : InboxSecretKey} :
    Moves (Confined ∅ (durable agora))
      (storeCredentialMaterial agora skCred rRoot pkRoot skInbox) := by
  have hcredential : (agora, Slot.CredentialKey) ∈ durable agora := .inl rfl
  have hopening : (agora, Slot.RootOpening) ∈ durable agora := .inr (.inl rfl)
  have hpublic : (agora, Slot.RootPublicKey) ∈ durable agora := .inr (.inr (.inl rfl))
  have hinbox : (agora, Slot.InboxKey) ∈ durable agora := .inr (.inr (.inr rfl))
  have hdiscard : ∀ slot, (agora, slot) ∈ durable agora →
      Moves (Confined ∅ (durable agora)) (ignoring (SecureStorage.delete agora slot)) :=
    fun slot hslot => moves_ignoring (FaultyStore.moves_erase (.inr hslot))
  apply moves_bind (FaultyStore.moves_put hcredential)
  intro _
  apply moves_bind (moves_unwinding (hdiscard _ hcredential) (FaultyStore.moves_put hopening))
  intro _
  apply moves_bind
  · apply moves_unwinding _ (FaultyStore.moves_put hpublic)
    exact moves_bind (hdiscard _ hopening) fun _ => hdiscard _ hcredential
  · intro _
    apply moves_unwinding _ (FaultyStore.moves_put hinbox)
    exact moves_bind (hdiscard _ hpublic) fun _ =>
      moves_bind (hdiscard _ hopening) fun _ => hdiscard _ hcredential

theorem moves_create [Primitives] {keyStore : KeyStore} {entropy : CredentialEntropy}
    {publicKeySize bindingSize : Nat} :
    Moves (Confined ∅ (durable agora))
      (create agora keyStore entropy publicKeySize bindingSize) := by
  unfold create
  refine moves_bind (moves_expectOk _) fun root => ?_
  refine moves_bind (moves_expect _ _) fun commitment => ?_
  exact moves_bind moves_storeCredentialMaterial fun _ => moves_pure _

end Creating

section Rolling

variable [Primitives] {keyStore : KeyStore} {epochSecret : FreshEntropy} {recordSize : Nat}

-- A roll that returns has swept from the cursor, then stored its key, its certificate and
-- itself as the cursor.
theorem rollEpoch_ok
    (hroll : rollEpoch agora keyStore current epochSecret recordSize storage = .ok () after) :
    ∃ cursor swept' record, CursorIs agora storage.held cursor ∧
      (∀ first, cursor = some first → first.get ≤ current.get) ∧
      signEpochRecord agora keyStore current
        (Signature.SigningSeed.mint epochSecret).publicKey.toList recordSize = .ok record ∧
      Erased (swept agora cursor current) storage swept' ∧
      after.held = Function.update (Function.update (Function.update swept'.held
        (agora, .EpochKey current) (some (Signature.SigningSeed.mint epochSecret).expose.toList))
        (agora, .EpochCert current) (some record))
        (agora, .EpochCursor) (some current.toLeBytes) := by
  unfold rollEpoch at hroll
  rw [bind_eq_ok] at hroll
  obtain ⟨cursor, loaded, hload, hroll⟩ := hroll
  obtain ⟨_, rfl, hcursor⟩ := loadCursor_eq_ok.1 hload
  rw [expectOk_bind_eq_ok] at hroll
  obtain ⟨_, _, hroll⟩ := hroll
  rw [expectOk_bind_eq_ok] at hroll
  obtain ⟨record, hsign, hroll⟩ := hroll
  rw [bind_eq_ok] at hroll
  obtain ⟨_, discarded, hdiscard, hroll⟩ := hroll
  rw [bind_eq_ok] at hroll
  obtain ⟨_, keyed, hkey, hroll⟩ := hroll
  rw [bind_eq_ok] at hroll
  obtain ⟨_, certified, hcert, hroll⟩ := hroll
  rw [unwinding_eq_ok] at hcert
  obtain ⟨_, rfl⟩ := SecureStorage.store_eq_ok.1 hkey
  obtain ⟨_, rfl⟩ := SecureStorage.store_eq_ok.1 hcert
  obtain ⟨_, rfl⟩ := SecureStorage.store_eq_ok.1 hroll
  obtain ⟨found, hfound, hle, herased⟩ := discardExpired_ok hdiscard
  obtain rfl := CursorIs.unique hfound hcursor
  exact ⟨found, discarded, record, hcursor, hle, hsign, ⟨herased.gone, herased.kept⟩, rfl⟩

-- A roll past the key it stores: it read its cursor, signed, and swept up to its own epoch.
structure Keyed (agora : AgoraId) (keyStore : KeyStore) (current : Epoch)
    (epochSecret : FreshEntropy) (recordSize : Nat) (storage : SecureStorage)
    (cursor : Option Epoch) (record : List UInt8) (discarded keyed : SecureStorage) : Prop where
  read : storage.fault 0 = none
  cursorIs : CursorIs agora storage.held cursor
  reach : checkedReach cursor current = .ok ()
  sign : signEpochRecord agora keyStore current
    (Signature.SigningSeed.mint epochSecret).publicKey.toList recordSize = .ok record
  discard : discardExpired agora current (storage.used storage.held) = .ok () discarded
  worked : discarded.fault 0 = none
  stored : keyed = discarded.used (Function.update discarded.held (agora, .EpochKey current)
    (some (Signature.SigningSeed.mint epochSecret).expose.toList))

-- Where a roll that refuses has stopped.
inductive RollStops (agora : AgoraId) (keyStore : KeyStore) (current : Epoch)
    (epochSecret : FreshEntropy) (recordSize : Nat) (storage : SecureStorage)
    (refusal : ProtocolError) (after : SecureStorage) : Prop
  | loading (hload : loadCursor agora storage = .error refusal after)
  | checking (hafter : after = storage.used storage.held)
  | sweeping {cursor : Option Epoch} (hcursor : CursorIs agora storage.held cursor)
      (hreach : checkedReach cursor current = .ok ())
      (hdiscard : discardExpired agora current (storage.used storage.held) = .error refusal after)
  | keying {cursor : Option Epoch} {discarded : SecureStorage}
      (hcursor : CursorIs agora storage.held cursor)
      (hreach : checkedReach cursor current = .ok ())
      (hdiscard : discardExpired agora current (storage.used storage.held) = .ok () discarded)
      (hafter : after = discarded.used discarded.held)
  | certifying {cursor : Option Epoch} {record : List UInt8} {discarded keyed : SecureStorage}
      (hkeyed : Keyed agora keyStore current epochSecret recordSize storage cursor record
        discarded keyed)
      (hfault : keyed.fault 0 = some refusal)
      (hafter : after = left (SecureStorage.delete agora (.EpochKey current)
        (keyed.used keyed.held)))
  | moving {cursor : Option Epoch} {record : List UInt8} {discarded keyed : SecureStorage}
      (hkeyed : Keyed agora keyStore current epochSecret recordSize storage cursor record
        discarded keyed)
      (hfault : (keyed.used (Function.update keyed.held (agora, .EpochCert current)
        (some record))).fault 0 = some refusal)
      (hafter : after = (keyed.used (Function.update keyed.held (agora, .EpochCert current)
        (some record))).used (Function.update keyed.held (agora, .EpochCert current)
        (some record)))

theorem rollStops_of_error {refusal : ProtocolError}
    (hroll : rollEpoch agora keyStore current epochSecret recordSize storage =
      .error refusal after) :
    RollStops agora keyStore current epochSecret recordSize storage refusal after := by
  unfold rollEpoch at hroll
  rw [bind_eq_error] at hroll
  rcases hroll with hload | ⟨cursor, loaded, hload, hroll⟩
  · exact .loading hload
  obtain ⟨hread, rfl, hcursor⟩ := loadCursor_eq_ok.1 hload
  rw [expectOk_bind_eq_error] at hroll
  rcases hroll with ⟨_, hafter⟩ | ⟨_, hreach, hroll⟩
  · exact .checking hafter
  rw [expectOk_bind_eq_error] at hroll
  rcases hroll with ⟨_, hafter⟩ | ⟨record, hsign, hroll⟩
  · exact .checking hafter
  rw [bind_eq_error] at hroll
  rcases hroll with hdiscard | ⟨_, discarded, hdiscard, hroll⟩
  · exact .sweeping hcursor hreach hdiscard
  rw [bind_eq_error] at hroll
  rcases hroll with hstore | ⟨_, keyed, hstore, hroll⟩
  · exact .keying hcursor hreach hdiscard (SecureStorage.store_eq_error.1 hstore).2
  obtain ⟨hworked, hstored⟩ := SecureStorage.store_eq_ok.1 hstore
  have hkeyed : Keyed agora keyStore current epochSecret recordSize storage cursor record
      discarded keyed := ⟨hread, hcursor, hreach, hsign, hdiscard, hworked, hstored⟩
  rw [bind_eq_error] at hroll
  rcases hroll with hcert | ⟨_, certified, hcert, hroll⟩
  · obtain ⟨middle, hfailed, hafter⟩ := unwinding_eq_error.1 hcert
    obtain ⟨hfault, rfl⟩ := SecureStorage.store_eq_error.1 hfailed
    exact .certifying hkeyed hfault hafter
  · rw [unwinding_eq_ok] at hcert
    obtain ⟨_, rfl⟩ := SecureStorage.store_eq_ok.1 hcert
    obtain ⟨hfault, hafter⟩ := SecureStorage.store_eq_error.1 hroll
    exact .moving hkeyed hfault hafter

-- No sweep reaches the epoch it sweeps up to, so that a certificate already there stays.
theorem Keyed.cert_kept {cursor : Option Epoch} {record : List UInt8}
    {discarded keyed : SecureStorage} (hkeyed : Keyed agora keyStore current epochSecret recordSize
      storage cursor record discarded keyed) :
    discarded.held (agora, .EpochCert current) = storage.held (agora, .EpochCert current) := by
  obtain ⟨found, _, _, herased⟩ := discardExpired_ok hkeyed.discard
  have hnotSwept : (agora, Slot.EpochCert current) ∉ swept agora found current := by
    rintro ⟨_, _, epoch, _, hepoch, _, hlt⟩
    obtain rfl := Option.some.inj hepoch
    exact absurd hlt (Nat.lt_irrefl _)
  exact herased.kept _ hnotSwept

-- A roll that refuses leaves the cursor where it was: what it can have done is to sweep, and
-- to write the slots of the epoch it rolls to.
theorem rollEpoch_error {refusal : ProtocolError}
    (hroll : rollEpoch agora keyStore current epochSecret recordSize storage =
      .error refusal after) :
    after.held = storage.held ∨ ∃ cursor, CursorIs agora storage.held cursor ∧
      (∀ first, cursor = some first → first.get ≤ current.get) ∧
      Confined (acting agora) (actingIn agora current) storage after := by
  have hread : Confined (acting agora) (actingIn agora current) storage
      (storage.used storage.held) := FaultyStore.confined_used
  have hkey : (agora, Slot.EpochKey current) ∈ actingIn agora current := ⟨rfl, rfl⟩
  have hcert : (agora, Slot.EpochCert current) ∈ actingIn agora current := ⟨rfl, rfl⟩
  have hsweep : Moves (Confined (acting agora) (actingIn agora current))
      (discardExpired agora current) :=
    moves_discardExpired.mono fun _ _ hconfined =>
      hconfined.mono Set.Subset.rfl (Set.empty_subset _)
  have hkeyed : ∀ {cursor record discarded keyed}, Keyed agora keyStore current epochSecret
      recordSize storage cursor record discarded keyed →
      Confined (acting agora) (actingIn agora current) storage keyed := by
    intro cursor record discarded keyed hkeyed
    refine (hread.trans (hsweep.of_ok hkeyed.discard)).trans fun key hother => .inl ?_
    have hne : key ≠ (agora, .EpochKey current) := fun heq => hother (heq ▸ hkey)
    simp [hkeyed.stored, hne]
  cases rollStops_of_error hroll with
  | loading hload => exact .inl (FaultyStore.confined_empty.1 (moves_loadCursor.of_error hload))
  | checking hafter =>
      rw [hafter]
      exact .inl rfl
  | @sweeping cursor hcursor hreach hdiscard =>
      exact .inr ⟨cursor, hcursor, fun _ => checkedReach_le hreach,
        hread.trans (hsweep.of_error hdiscard)⟩
  | @keying cursor _ hcursor hreach hdiscard hafter =>
      refine .inr ⟨cursor, hcursor, fun _ => checkedReach_le hreach, ?_⟩
      rw [hafter]
      exact (hread.trans (hsweep.of_ok hdiscard)).trans FaultyStore.confined_used
  | @certifying cursor _ _ keyed hstopped _ hafter =>
      refine .inr ⟨cursor, hstopped.cursorIs, fun _ => checkedReach_le hstopped.reach, ?_⟩
      rw [hafter]
      exact ((hkeyed hstopped).trans FaultyStore.confined_used).trans
        (FaultyStore.moves_erase (.inr hkey) _)
  | @moving cursor _ _ keyed hstopped _ hafter =>
      refine .inr ⟨cursor, hstopped.cursorIs, fun _ => checkedReach_le hstopped.reach, ?_⟩
      rw [hafter]
      refine (hkeyed hstopped).trans fun key hother => .inl ?_
      have hne : key ≠ (agora, .EpochCert current) := fun heq => hother (heq ▸ hcert)
      simp [hne]

-- What a roll that refuses leaves of its own epoch: nothing new, its whole pair, or its key beside
-- whatever certificate was stored there.
theorem rollEpoch_error_pair {refusal : ProtocolError}
    (hroll : rollEpoch agora keyStore current epochSecret recordSize storage =
      .error refusal after) :
    Confined (acting agora) ∅ storage after ∨
      ∃ cursor record, CursorIs agora storage.held cursor ∧
        checkedReach cursor current = .ok () ∧
        signEpochRecord agora keyStore current
          (Signature.SigningSeed.mint epochSecret).publicKey.toList recordSize = .ok record ∧
        Confined (acting agora) (actingIn agora current) storage after ∧
        after.held (agora, .EpochKey current) =
          some (Signature.SigningSeed.mint epochSecret).expose.toList ∧
        (after.held (agora, .EpochCert current) = some record ∨
          after.held (agora, .EpochCert current) = storage.held (agora, .EpochCert current) ∧
            (∀ index, index < 3 + sweepLength cursor current → storage.fault index = none) ∧
            storage.fault (3 + sweepLength cursor current) ≠ none ∧
            storage.fault (4 + sweepLength cursor current) ≠ none) := by
  have hread : Confined (acting agora) ∅ storage (storage.used storage.held) :=
    FaultyStore.confined_used
  cases rollStops_of_error hroll with
  | loading hload => exact .inl (moves_loadCursor.of_error hload)
  | checking hafter =>
      rw [hafter]
      exact .inl hread
  | sweeping _ _ hdiscard => exact .inl (hread.trans (moves_discardExpired.of_error hdiscard))
  | keying _ _ hdiscard hafter =>
      rw [hafter]
      exact .inl ((hread.trans (moves_discardExpired.of_ok hdiscard)).trans
        FaultyStore.confined_used)
  | @certifying cursor record discarded keyed hkeyed hfault hafter =>
      have hswept := hread.trans (moves_discardExpired.of_ok hkeyed.discard)
      have hdiscarded := (FaultyStore.spent_used hkeyed.read).trans
        (discardExpired_spent hkeyed.discard hkeyed.cursorIs)
      have hworked := hkeyed.worked
      obtain rfl := hkeyed.stored
      rw [hafter]
      cases hdelete : SecureStorage.delete agora (.EpochKey current) _ with
      | ok result taken =>
          obtain ⟨_, rfl⟩ := SecureStorage.delete_eq_ok.1 hdelete
          refine .inl fun key _ => ?_
          by_cases hkey : key = (agora, .EpochKey current)
          · subst hkey
            exact .inr ⟨⟨rfl, Option.some_ne_none current⟩, by simp [left]⟩
          · have hsame := hswept key (Set.notMem_empty _)
            simpa [left, hkey] using hsame
      | error thrown taken =>
          obtain ⟨hthrown, rfl⟩ := SecureStorage.delete_eq_error.1 hdelete
          simp only [FaultyStore.fault_used, hdiscarded.rest] at hfault hthrown
          rw [hdiscarded.rest] at hworked
          have hthird : storage.fault (3 + sweepLength cursor current) = some refusal := by
            rw [← hfault]
            congr 1
            omega
          have hfourth : storage.fault (4 + sweepLength cursor current) = some thrown := by
            rw [← hthrown]
            congr 1
            omega
          refine .inr ⟨cursor, record, hkeyed.cursorIs, hkeyed.reach, hkeyed.sign,
            hswept.then_writes fun key hkey => ?_, ?_, .inr ⟨?_, fun index hlt => ?_, ?_, ?_⟩⟩
          · have hne : key ≠ (agora, .EpochKey current) := by
              rintro rfl
              exact hkey ⟨rfl, rfl⟩
            simp [left, hne]
          · simp [left]
          · simpa [left] using hkeyed.cert_kept
          · by_cases hsmall : index < 1 + (1 + sweepLength cursor current)
            · exact hdiscarded.worked index hsmall
            · obtain rfl : index = 0 + (1 + (1 + sweepLength cursor current)) := by omega
              exact hworked
          · simp [hthird]
          · simp [hfourth]
  | @moving cursor record discarded keyed hkeyed _ hafter =>
      have hswept := hread.trans (moves_discardExpired.of_ok hkeyed.discard)
      obtain rfl := hkeyed.stored
      rw [hafter]
      refine .inr ⟨cursor, record, hkeyed.cursorIs, hkeyed.reach, hkeyed.sign,
        hswept.then_writes fun key hkey => ?_, ?_, .inl ?_⟩
      · have hkeyNe : key ≠ (agora, .EpochKey current) := by
          rintro rfl
          exact hkey ⟨rfl, rfl⟩
        have hcertNe : key ≠ (agora, .EpochCert current) := by
          rintro rfl
          exact hkey ⟨rfl, rfl⟩
        simp [hkeyNe, hcertNe]
      all_goals simp

-- A first roll that refuses has stored nothing that stays, where its fifth operation works: by
-- then it has stored its key, and that operation takes the key back or stores the cursor.
theorem rollEpoch_error_uncursored {refusal : ProtocolError}
    (hroll : rollEpoch agora keyStore current epochSecret recordSize storage =
      .error refusal after)
    (hcursor : CursorIs agora storage.held none) (hfifth : storage.fault 4 = none) :
    Confined (acting agora) ∅ storage after := by
  -- Nothing is swept where there is no cursor, so that the key is the third operation.
  have hfirst : ∀ {cursor record discarded keyed}, Keyed agora keyStore current epochSecret
      recordSize storage cursor record discarded keyed →
      discarded = (storage.used storage.held).used (storage.used storage.held).held := by
    intro cursor record discarded keyed hkeyed
    have hstill : CursorIs agora (storage.used storage.held).held none := hcursor
    exact ((discardExpired_uncursored hstill).1 hkeyed.discard).2
  cases rollStops_of_error hroll with
  | loading hload => exact moves_loadCursor.of_error hload
  | checking hafter =>
      rw [hafter]
      exact FaultyStore.confined_used
  | sweeping _ _ hdiscard =>
      exact FaultyStore.confined_used.trans (moves_discardExpired.of_error hdiscard)
  | keying _ _ hdiscard hafter =>
      rw [hafter]
      exact (FaultyStore.confined_used.trans (moves_discardExpired.of_ok hdiscard)).trans
        FaultyStore.confined_used
  | certifying hkeyed _ hafter =>
      obtain rfl := hfirst hkeyed
      obtain rfl := hkeyed.stored
      rw [hafter]
      cases hdelete : SecureStorage.delete agora (.EpochKey current) _ with
      | error fault middle =>
          obtain ⟨hfault, _⟩ := SecureStorage.delete_eq_error.1 hdelete
          simp only [FaultyStore.fault_used, hfifth] at hfault
          cases hfault
      | ok result taken =>
          obtain ⟨_, rfl⟩ := SecureStorage.delete_eq_ok.1 hdelete
          intro key _
          by_cases hkey : key = (agora, .EpochKey current)
          · subst hkey
            exact .inr ⟨⟨rfl, Option.some_ne_none current⟩, by simp [left]⟩
          · exact .inl (by simp [left, hkey])
  | moving hkeyed hfault _ =>
      obtain rfl := hfirst hkeyed
      obtain rfl := hkeyed.stored
      simp only [FaultyStore.fault_used, hfifth] at hfault
      cases hfault

end Rolling

end Nymora.Protocol.Credential
