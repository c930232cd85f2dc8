import Nymora.Ports.Software
import Nymora.Protocol.Credential.Pairing

namespace Nymora.Protocol.Credential

open Nymora.Core
open Nymora.Crypto
open Nymora.Ports
open FaultyStore (Confined Permitted)
open Method
open Runs

-- Everything a device is asked to do for one agora over a credential's life.
inductive DeviceRequest
  | member (request : Request)
  | storeTagKey (epoch : Epoch) (key : TagKey)
  | authorizeMigration (keyStore : KeyStore) (successorPublicKey : List UInt8)
      (buffers : MigrationBuffers)
  | completeMigration (handoff : MigrationHandoff) (rootPublicKey : List UInt8)
      (rootOpening inboxKey : FreshEntropy)

structure DeviceCall where
  request : DeviceRequest
  faults : List (Option ProtocolError)

variable [Primitives]

def DeviceRequest.run (agora : AgoraId) : DeviceRequest → Storing Unit
  | .member request => request.run agora
  | .storeTagKey epoch key => Credential.storeTagKey agora epoch key
  | .authorizeMigration keyStore successorPublicKey buffers => do
      let _ ← Credential.authorizeMigration agora keyStore successorPublicKey buffers
      return ()
  | .completeMigration handoff rootPublicKey rootOpening inboxKey => do
      let _ ← Credential.completeMigration agora handoff rootPublicKey rootOpening inboxKey
      return ()

def operate (agora : AgoraId) (contents : Contents) (call : DeviceCall) :
    Except ProtocolError Unit × Contents :=
  match call.request.run agora ⟨contents, call.faults⟩ with
  | .ok _ after => (.ok (), after.held)
  | .error refusal after => (.error refusal, after.held)

abbrev DeviceEvent := Event Contents DeviceCall (Except ProtocolError Unit)

-- What a device's run creates, rolls or sweeps.
def DeviceEvent.member? : DeviceEvent → Option Happened
  | ⟨before, ⟨.member request, faults⟩, outcome, after⟩ =>
      some ⟨before, ⟨request, faults⟩, outcome, after⟩
  | _ => none

def members (past : List DeviceEvent) : List Happened := past.filterMap DeviceEvent.member?

-- The guard on rolls, of the device's own rolls.
def DeviceEvent.KeepsPair (agora : AgoraId) (happened : DeviceEvent) : Prop :=
  ∀ request, happened.call.request = .member request →
    Happened.KeepsPair agora
      ⟨happened.before, ⟨request, happened.call.faults⟩, happened.outcome, happened.after⟩

-- A device whose key stores are backends of one root, and which takes over canonical secrets only.
def DeviceRequest.Served (root : AgoraId → Bytes 32) (agora : AgoraId) : DeviceRequest → Prop
  | .member (.create keyStore _ _ _) => keyStore.Honours root
  | .member (.rollEpoch keyStore _ _ _) => keyStore.Honours root
  | .completeMigration handoff rootPublicKey _ _ =>
      rootPublicKey = (root agora).toList ∧ handoff.credentialKey.expose.toNatLe < fieldOrder
  | _ => True

-- A device new to an agora.
def Blank (agora : AgoraId) (contents : Contents) : Prop := ∀ slot, contents (agora, slot) = none

-- A stored secret the circuit's field has.
def CanonicalSecret (value : List UInt8) : Prop :=
  ∃ secret : Bytes 32, value = secret.toList ∧ secret.toNatLe < fieldOrder

-- What a device of one root may hold.
structure Allowed (root : AgoraId → Bytes 32) (agora : AgoraId) (key : AgoraId × Slot)
    (value : List UInt8) : Prop where
  secret : key = (agora, .CredentialKey) ∨ key = (agora, .RootOpening) → CanonicalSecret value
  rootPublicKey : key = (agora, .RootPublicKey) →
    value = (root agora).toList ∧ (Primitives.fromBytes (root agora)).isSome

variable {agora : AgoraId} {root : AgoraId → Bytes 32} {contents : Contents}

theorem operate_snd {call : DeviceCall} : (operate agora contents call).2 =
    (left (call.request.run agora ⟨contents, call.faults⟩)).held := by
  unfold operate
  split
  · next result after hrun => rw [hrun]; rfl
  · next refusal after hrun => rw [hrun]; rfl

theorem operate_member (request : Request) (faults : List (Option ProtocolError)) :
    operate agora contents ⟨.member request, faults⟩ = perform agora contents ⟨request, faults⟩ :=
  rfl

section Storing

omit [Primitives] in
theorem canonicalSecret_mint (entropy : FreshEntropy) :
    CanonicalSecret (Field.mintSecret entropy).toList := by
  refine ⟨_, rfl, ?_⟩
  rw [Field.mintSecret, Field.toNatLe_mask_id]
  exact Nat.lt_trans (Nat.mod_lt _ (by decide)) (by decide)

-- The slots a device may hold anything in.
theorem allowed_free {slot : Slot} {owner : AgoraId} {value : List UInt8}
    (hslot : slot ≠ .CredentialKey ∧ slot ≠ .RootOpening ∧ slot ≠ .RootPublicKey) :
    Allowed root agora (owner, slot) value := by
  constructor
  · rintro (hkey | hkey)
    · exact absurd (Prod.mk.inj hkey).2 hslot.1
    · exact absurd (Prod.mk.inj hkey).2 hslot.2.1
  · intro hkey
    exact absurd (Prod.mk.inj hkey).2 hslot.2.2

theorem moves_permitted_store {slot : Slot} {value : List UInt8}
    (hallowed : Allowed root agora (agora, slot) value) :
    Moves (Permitted (Allowed root agora)) (SecureStorage.store agora slot value) :=
  FaultyStore.moves_permitted_put hallowed

theorem moves_permitted_delete (slot : Slot) :
    Moves (Permitted (Allowed root agora)) (SecureStorage.delete agora slot) :=
  FaultyStore.moves_permitted_erase

theorem moves_permitted_material {skCred : CredentialKey} {rRoot : RootOpening}
    {pkRoot : List UInt8} (skInbox : InboxSecretKey)
    (hcredential : CanonicalSecret skCred.expose.toList)
    (hopening : CanonicalSecret rRoot.expose.toList) (hroot : pkRoot = (root agora).toList)
    (hpoint : (Primitives.fromBytes (root agora)).isSome) :
    Moves (Permitted (Allowed root agora))
      (storeCredentialMaterial agora skCred rRoot pkRoot skInbox) := by
  have hdiscard : ∀ slot, Moves (Permitted (Allowed root agora))
      (ignoring (SecureStorage.delete agora slot)) :=
    fun slot => moves_ignoring (moves_permitted_delete slot)
  have hkey : Allowed root agora (agora, .CredentialKey) skCred.expose.toList :=
    ⟨fun _ => hcredential, fun hslot => by cases hslot⟩
  have hopened : Allowed root agora (agora, .RootOpening) rRoot.expose.toList :=
    ⟨fun _ => hopening, fun hslot => by cases hslot⟩
  have hpublic : Allowed root agora (agora, .RootPublicKey) pkRoot :=
    ⟨fun hslot => by simp at hslot, fun _ => ⟨hroot, hpoint⟩⟩
  have hinbox : Allowed root agora (agora, .InboxKey) skInbox.expose.toList :=
    allowed_free (by simp)
  refine moves_bind (moves_permitted_store hkey) fun _ => ?_
  refine moves_bind (moves_unwinding (hdiscard _) (moves_permitted_store hopened)) fun _ => ?_
  refine moves_bind (moves_unwinding ?_ (moves_permitted_store hpublic)) fun _ => ?_
  · exact moves_bind (hdiscard _) fun _ => hdiscard _
  · refine moves_unwinding ?_ (moves_permitted_store hinbox)
    exact moves_bind (hdiscard _) fun _ => moves_bind (hdiscard _) fun _ => hdiscard _

-- A commitment names a point as its root.
theorem isSome_of_commit {pkRoot : Bytes 32} {skCred : CredentialKey} {rRoot : RootOpening}
    {commitment : Commitment} (hcommit : commit pkRoot.toList skCred rRoot agora = some commitment) :
    (Primitives.fromBytes pkRoot).isSome := by
  simp only [commit, Bytes.ofList?_toList, Option.bind_eq_bind, Option.bind_some,
    Option.bind_eq_some_iff] at hcommit
  obtain ⟨point, hpoint, -⟩ := hcommit
  rw [hpoint]
  rfl

theorem moves_permitted_create {keyStore : KeyStore} (hhonours : keyStore.Honours root)
    (entropy : CredentialEntropy) (publicKeySize bindingSize : Nat) :
    Moves (Permitted (Allowed root agora))
      (create agora keyStore entropy publicKeySize bindingSize) := by
  unfold create
  refine moves_expectOk_bind fun material hcreated => ?_
  refine moves_expect_bind fun commitment hcommit => ?_
  have hroot := hhonours.creates _ _ _ _ hcreated
  rw [hroot] at hcommit
  exact moves_bind (moves_permitted_material _ (canonicalSecret_mint _) (canonicalSecret_mint _)
    hroot (isSome_of_commit hcommit)) fun _ => moves_pure _

theorem moves_permitted_completeMigration {handoff : MigrationHandoff} {rootPublicKey : List UInt8}
    (hroot : rootPublicKey = (root agora).toList)
    (hcredential : handoff.credentialKey.expose.toNatLe < fieldOrder)
    (rootOpening inboxKey : FreshEntropy) :
    Moves (Permitted (Allowed root agora))
      (completeMigration agora handoff rootPublicKey rootOpening inboxKey) := by
  unfold completeMigration
  refine moves_bind (moves_ensure _ _) fun _ => ?_
  refine moves_expect_bind fun commitment hcommit => ?_
  refine moves_expect_bind fun consumed _ => ?_
  rw [hroot] at hcommit
  exact moves_bind (moves_permitted_material _ ⟨_, rfl, hcredential⟩ (canonicalSecret_mint _)
    hroot (isSome_of_commit hcommit)) fun _ => moves_pure _

-- A roll writes slots that may hold anything.
theorem moves_permitted_rollEpoch (keyStore : KeyStore) (current : Epoch)
    (epochSecret : FreshEntropy) (recordSize : Nat) :
    Moves (Permitted (Allowed root agora))
      (rollEpoch agora keyStore current epochSecret recordSize) := by
  have hreads : Moves (Confined ∅ ∅) (loadCursor agora) := moves_loadCursor
  have hread : Moves (Permitted (Allowed root agora)) (loadCursor agora) :=
    FaultyStore.moves_permitted_of_confined hreads
  have hsweep : Moves (Permitted (Allowed root agora)) (discardExpired agora current) :=
    FaultyStore.moves_permitted_of_confined moves_discardExpired
  unfold rollEpoch
  refine moves_bind hread fun cursor => ?_
  refine moves_bind (moves_expectOk _) fun _ => ?_
  refine moves_bind (moves_expectOk _) fun record => ?_
  refine moves_bind hsweep fun _ => ?_
  refine moves_bind (moves_permitted_store (allowed_free (by simp))) fun _ => ?_
  refine moves_bind (moves_unwinding (moves_permitted_delete _)
    (moves_permitted_store (allowed_free (by simp)))) fun _ => ?_
  exact moves_permitted_store (allowed_free (by simp))

end Storing

section Moving

-- Authorizing a migration only takes slots away.
theorem moves_authorizeMigration {keyStore : KeyStore} {successorPublicKey : List UInt8}
    {buffers : MigrationBuffers} : Moves (Confined Set.univ ∅)
      (authorizeMigration agora keyStore successorPublicKey buffers) := by
  rw [authorizeMigration_eq]
  have hassemble : Moves (Confined Set.univ ∅)
      (assembleHandoff agora keyStore successorPublicKey buffers) :=
    moves_assembleHandoff.mono fun _ _ hmoves => hmoves.mono (Set.empty_subset _) Set.Subset.rfl
  have hdestroy : Moves (Confined Set.univ ∅) (destroyActingMaterial agora) :=
    moves_bind (FaultyStore.moves_erase (.inl (Set.mem_univ _))) fun _ => moves_destroyLed
  exact moves_bind hassemble fun _ => moves_bind hdestroy fun _ => moves_pure _

theorem moves_completeMigration {handoff : MigrationHandoff} {rootPublicKey : List UInt8}
    {rootOpening inboxKey : FreshEntropy} : Moves (Confined ∅ (durable agora))
      (completeMigration agora handoff rootPublicKey rootOpening inboxKey) := by
  unfold completeMigration
  refine moves_bind (moves_ensure _ _) fun _ => ?_
  refine moves_bind (moves_expect _ _) fun commitment => ?_
  refine moves_bind (moves_expect _ _) fun consumed => ?_
  exact moves_bind moves_storeCredentialMaterial fun _ => moves_pure _

end Moving

section Steps

variable {past : List Happened} {call : DeviceCall}

-- Only a roll writes what acts: every other call keeps the pairing.
theorem paired_operate (hpaired : Paired agora past contents)
    (hkeeps : DeviceEvent.KeepsPair agora (event (operate agora) contents call))
    (hmem : ∀ base, DeviceEvent.member? (event (operate agora) contents call) = some base →
      base ∈ past) : Paired agora past (operate agora contents call).2 := by
  obtain ⟨request, faults⟩ := call
  cases request with
  | member request =>
      rw [operate_member]
      exact paired_perform hpaired (hkeeps request rfl) (hmem _ rfl)
  | storeTagKey epoch key =>
      rw [operate_snd]
      refine hpaired.of_kept fun slot hslot => .inl ?_
      have hmoves : Moves (Confined ∅ {(agora, Slot.TagKey epoch)})
          (Credential.storeTagKey agora epoch key) := FaultyStore.moves_put rfl
      have hother : slot ∉ ({(agora, Slot.TagKey epoch)} : Set (AgoraId × Slot)) := by
        rintro rfl
        exact hslot.2 rfl
      exact (hmoves ⟨contents, faults⟩).held_eq (Set.notMem_empty _) hother
  | authorizeMigration keyStore successorPublicKey buffers =>
      rw [operate_snd]
      have hmoves : Moves (Confined Set.univ ∅) (DeviceRequest.run agora
          (.authorizeMigration keyStore successorPublicKey buffers)) :=
        moves_bind moves_authorizeMigration fun _ => moves_pure _
      refine hpaired.of_kept fun slot _ => ?_
      rcases hmoves ⟨contents, faults⟩ slot (Set.notMem_empty slot) with hkept | ⟨_, hgone⟩
      · exact .inl hkept
      · exact .inr hgone
  | completeMigration handoff rootPublicKey rootOpening inboxKey =>
      rw [operate_snd]
      have hmoves : Moves (Confined ∅ (durable agora)) (DeviceRequest.run agora
          (.completeMigration handoff rootPublicKey rootOpening inboxKey)) :=
        moves_bind moves_completeMigration fun _ => moves_pure _
      exact hpaired.of_kept fun slot hslot => .inl
        ((hmoves ⟨contents, faults⟩).held_eq (Set.notMem_empty _) (durable_disjoint (.inl hslot)))

-- Whatever fails, a device of one root holds what it may.
theorem allowed_operate (hserved : call.request.Served root agora)
    (hallowed : ∀ key value, contents key = some value → Allowed root agora key value) :
    ∀ key value, (operate agora contents call).2 key = some value →
      Allowed root agora key value := by
  obtain ⟨request, faults⟩ := call
  have hpermitted : Permitted (Allowed root agora) ⟨contents, faults⟩
      (left (request.run agora ⟨contents, faults⟩)) := by
    cases request with
    | member request =>
        cases request with
        | create keyStore entropy publicKeySize bindingSize =>
            exact moves_bind (moves_permitted_create hserved entropy publicKeySize bindingSize)
              (fun _ => moves_pure _) _
        | rollEpoch keyStore current epochSecret recordSize =>
            exact moves_permitted_rollEpoch keyStore current epochSecret recordSize _
        | discardExpired current =>
            exact FaultyStore.moves_permitted_of_confined moves_discardExpired _
    | storeTagKey epoch key => exact moves_permitted_store (allowed_free (by simp)) _
    | authorizeMigration keyStore successorPublicKey buffers =>
        have hmoves : Moves (Confined Set.univ ∅) (DeviceRequest.run agora
            (.authorizeMigration keyStore successorPublicKey buffers)) :=
          moves_bind moves_authorizeMigration fun _ => moves_pure _
        exact FaultyStore.moves_permitted_of_confined hmoves _
    | completeMigration handoff rootPublicKey rootOpening inboxKey =>
        exact moves_bind (moves_permitted_completeMigration hserved.1 hserved.2 rootOpening
          inboxKey) (fun _ => moves_pure _) _
  rw [operate_snd]
  exact hpermitted.holds hallowed

end Steps

section Runs

variable {start : Contents} {calls : List DeviceCall}

omit [Primitives] in
theorem Blank.epochs (hblank : Blank agora start) : BlankEpochs agora start :=
  ⟨hblank _, fun _ => ⟨hblank _, hblank _⟩⟩

theorem Blank.allowed (hblank : Blank agora start) (root : AgoraId → Bytes 32)
    (key : AgoraId × Slot) (value : List UInt8) (hvalue : start key = some value) :
    Allowed root agora key value := by
  have hother : ∀ slot, key ≠ (agora, slot) := by
    rintro slot rfl
    exact absurd (hvalue.symm.trans (hblank slot)) (by simp)
  exact ⟨fun hkey => absurd hkey (not_or.2 ⟨hother _, hother _⟩), fun hkey => absurd hkey (hother _)⟩

theorem devicePaired_final (hblank : Blank agora start)
    (hkeeps : ∀ happened ∈ events (operate agora) start calls,
      DeviceEvent.KeepsPair agora happened) :
    Paired agora (members (events (operate agora) start calls))
      (final (operate agora) start calls) := by
  have hguard : ∀ happened ∈ events (operate agora) start calls,
      DeviceEvent.KeepsPair agora happened ∧ ∀ base, DeviceEvent.member? happened = some base →
        base ∈ members (events (operate agora) start calls) :=
    fun happened hmem => ⟨hkeeps happened hmem, fun base hbase =>
      List.mem_filterMap.2 ⟨happened, hmem, hbase⟩⟩
  refine guarded_final hblank.epochs.paired ?_ hguard
  intro before call hkept hbefore
  exact paired_operate hbefore hkept.1 hkept.2

theorem allowed_final (hblank : Blank agora start)
    (hserved : ∀ call ∈ calls, call.request.Served root agora) :
    ∀ key value, final (operate agora) start calls key = some value →
      Allowed root agora key value := by
  induction calls using List.reverseRecOn with
  | nil => exact hblank.allowed root
  | append_singleton calls call ih =>
      rw [final_concat]
      apply allowed_operate (hserved call (by simp))
      exact ih fun earlier hearlier => hserved earlier (List.mem_append_left _ hearlier)

-- Whatever key store of a served run signed a certificate, it signed the epoch's message under
-- the root.
theorem signsMessage_of_signedIn (hserved : ∀ call ∈ calls, call.request.Served root agora)
    {epoch : Epoch} {publicKey signature : List UInt8}
    (hsigned : SignedIn agora (members (events (operate agora) start calls)) epoch publicKey
      signature) :
    SignsMessage (root agora) (Signature.epochCertMessage agora epoch publicKey) signature := by
  obtain ⟨base, hbase, keyStore, epochSecret, recordSize, room, written, hrequest, _, hwritten,
    rfl, _⟩ := hsigned
  obtain ⟨happened, hmem, hmember⟩ := List.mem_filterMap.1 hbase
  obtain ⟨earlier, ⟨request, faults⟩, later, rfl, rfl⟩ := mem_events hmem
  cases request with
  | member request =>
      obtain rfl := Option.some.inj hmember
      have hcalled := hserved ⟨.member request, faults⟩ (by simp)
      simp only at hrequest
      rw [hrequest] at hcalled
      exact hcalled.epochCert _ _ _ hwritten
  | _ => cases hmember

end Runs

end Nymora.Protocol.Credential
