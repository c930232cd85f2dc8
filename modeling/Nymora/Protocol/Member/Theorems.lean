import Nymora.Accumulator.Exclusion.Completeness
import Nymora.Protocol.Member
import Nymora.Protocol.Operator.Envelope.Statement
import Nymora.Protocol.Operator.Run.Delivery
import Nymora.Protocol.Operator.Run.Sealing

namespace Nymora.Protocol

open Nymora.Core
open Nymora.Crypto
open Nymora.Accumulator
open Nymora.Circuits
open Nymora.Proofs
open Nymora.Ports
open Operator
open Method

namespace Stop

variable {α : Type} {value : α}

@[simp] theorem answered_eq_ok {answer : Except ProtocolError α} :
    answered answer = .ok value ↔ answer = .ok value := by
  cases answer with
  | ok found => simp [answered, Except.mapError]
  | error refusal => simp [answered, Except.mapError]

@[simp] theorem present_eq_ok {found : Option α} {refusal : ProtocolError} :
    present found refusal = .ok value ↔ found = some value := by
  cases found with
  | none => simp [present]
  | some found => simp [present]

@[simp] theorem expect_eq_ok {found : Option α} :
    expect found = .ok value ↔ found = some value := by
  cases found with
  | none => simp [expect]
  | some found => simp [expect]

end Stop

namespace Member

variable {depth : Nat} [Primitives] {member after : Member depth} {envelope : Envelope}

theorem operate_eq_ok {request : Credential.DeviceRequest} :
    member.operate request = .ok after ↔
      Credential.operate member.agora member.store ⟨request, []⟩ = (.ok (), after.store) ∧
        after = { member with store := after.store } := by
  unfold operate
  split
  · next store hstore =>
      rw [hstore]
      simp only [Except.ok.injEq, Prod.mk.injEq, true_and]
      constructor
      · rintro rfl
        exact ⟨rfl, rfl⟩
      · rintro ⟨hsame, hafter⟩
        rw [hafter, hsame]
  · next refusal store hstore =>
      rw [hstore]
      simp

-- A roll that returns has written its own epoch's slots and the cursor, and swept others' slots.
theorem roll_ok {epoch : Epoch} (hroll : member.roll epoch = .ok after) :
    after = { member with store := after.store } ∧
      ∃ storage, Credential.rollEpoch member.agora member.keys.keyStore epoch
        (member.epochSeed epoch) 256 ⟨member.store, []⟩ = .ok () storage ∧
        storage.held = after.store := by
  obtain ⟨hoperate, hafter⟩ := operate_eq_ok.1 hroll
  refine ⟨hafter, ?_⟩
  unfold Credential.operate at hoperate
  split at hoperate
  · next result storage hrun =>
      exact ⟨storage, hrun, (Prod.mk.inj hoperate).2⟩
  · next refusal storage hrun => cases hoperate

theorem roll_kept {epoch : Epoch} (hroll : member.roll epoch = .ok after) {slot : Slot}
    (hacts : slot.actsIn = none) (hcursor : slot ≠ .EpochCursor) :
    after.store (member.agora, slot) = member.store (member.agora, slot) := by
  obtain ⟨_, storage, hrun, hheld⟩ := roll_ok hroll
  obtain ⟨cursor, swept', record, _, _, _, herased, hwritten⟩ := Credential.rollEpoch_ok hrun
  have hkey : (member.agora, slot) ≠ (member.agora, Slot.EpochKey epoch) := by
    rintro heq
    rw [(Prod.mk.inj heq).2] at hacts
    cases hacts
  have hcert : (member.agora, slot) ≠ (member.agora, Slot.EpochCert epoch) := by
    rintro heq
    rw [(Prod.mk.inj heq).2] at hacts
    cases hacts
  have hlast : (member.agora, slot) ≠ (member.agora, Slot.EpochCursor) :=
    fun heq => hcursor (Prod.mk.inj heq).2
  have hswept : (member.agora, slot) ∉ Credential.swept member.agora cursor epoch := by
    intro hmem
    obtain ⟨_, _, _, _, hnamed, _⟩ := Credential.mem_swept.1 hmem
    cases hacts.symm.trans hnamed
  rw [← hheld, hwritten, Function.update_of_ne hlast, Function.update_of_ne hcert,
    Function.update_of_ne hkey]
  exact herased.kept _ hswept

-- A member that no envelope has brought anything of the operator's.
structure Untouched (member : Member depth) : Prop where
  epoch : member.epoch = none
  revocations : member.revocations = .new
  spends : member.spends = .new
  roots : member.roots = none
  path : member.path = none
  fetchKey : member.fetchKey = none
  tagKeys : member.tagKeys = []

omit [Primitives] in
-- Only the store, the pinned key and a promised position set two such members apart.
theorem Untouched.of_host (huntouched : Untouched member) (store : Contents)
    (statementKey : Option (Bytes 32)) (position : Nat) :
    Untouched { member with store, statementKey, position } :=
  ⟨huntouched.epoch, huntouched.revocations, huntouched.spends, huntouched.roots,
    huntouched.path, huntouched.fetchKey, huntouched.tagKeys⟩

-- An enrolled member is a created credential with its first epoch rolled.
theorem enroll_ok {keys : SoftwareKeyStore} {entropy : Credential.CredentialEntropy}
    {epochSeed : Epoch → Credential.FreshEntropy} {agora : AgoraId} {policyClass : PolicyClass}
    {epoch : Epoch} {enrolled : Member depth}
    (henroll : enroll keys entropy epochSeed agora policyClass epoch = .ok enrolled) :
    ∃ (member : Member depth) (made : Credential.Created 64 64) (storage : SecureStorage),
      Credential.create agora keys.keyStore entropy 64 64 ⟨fun _ => none, []⟩ = .ok made storage ∧
      member.roll epoch = .ok enrolled ∧ member.agora = agora ∧ member.keys = keys ∧
      member.store = storage.held ∧ member.leaf = made.commitment ∧ Untouched member := by
  unfold enroll at henroll
  split at henroll
  · cases henroll
  · next made storage hcreate =>
      exact ⟨_, made, storage, hcreate, henroll, rfl, rfl, rfl, rfl,
        ⟨rfl, rfl, rfl, rfl, rfl, rfl, rfl⟩⟩

-- A store without faults keeps a tag key.
theorem operate_storeTagKey (epoch : Epoch) (key : TagKey) :
    member.operate (.storeTagKey epoch key) = .ok { member with
      store := Function.update member.store (member.agora, .TagKey epoch)
        (some key.expose.toList) } := rfl

-- What an accepted envelope opened to.
structure Opened (member : Member depth) (envelope : Envelope) (own : OwnCiphertext)
    (path : Witness depth) (view : BodyView) (classRoot : Root) : Prop where
  accepted : ∃ statementKey, member.statementKey = some statementKey ∧
    acceptEnvelope statementKey.toList (envelope.statement member.agora)
      envelope.signature.toList member.epoch = .ok ()
  sealed : ∃ secret tag ciphertext,
    member.stored (Credential.loadInboxSecret member.agora) = .ok secret ∧
      ownLookupTag secret envelope.ephemeralKey member.policyClass = some tag ∧
      envelope.ciphertext tag = some ciphertext ∧
      openOwnCiphertext secret envelope.ephemeralKey member.agora envelope.epoch
        member.policyClass ciphertext.bytes = .ok own
  refilled : Witness.fromPrefix own.position ((entries own.path).map .fromBytes) = some path
  body : BodyView.openBody own.bodyKey member.agora envelope.epoch envelope.body = .ok view
  named : view.classRoot member.policyClass = some classRoot
  verified : verifies member.leaf path classRoot = true

theorem receive_eq_ok : member.receive envelope = .ok after ↔
    ∃ own path view classRoot equipped, Opened member envelope own path view classRoot ∧
      (member.apply envelope.epoch own.position path view classRoot).operate
        (.storeTagKey envelope.epoch view.tagKey) = .ok equipped ∧
      equipped.roll envelope.epoch = .ok after := by
  unfold receive
  simp only [except_bind_eq_ok, Stop.answered_eq_ok, Stop.present_eq_ok, Stop.expect_eq_ok]
  constructor
  · rintro ⟨statementKey, hpinned, _, haccepted, secret, hsecret, tag, htag, ciphertext,
      hciphertext, own, hown, path, hpath, view, hview, classRoot, hroot, hrest⟩
    by_cases hverified : verifies member.leaf path classRoot = true
    · rw [if_neg (not_not.2 hverified), except_bind_eq_ok] at hrest
      obtain ⟨equipped, hequipped, hafter⟩ := hrest
      exact ⟨own, path, view, classRoot, equipped, ⟨⟨statementKey, hpinned, haccepted⟩,
        ⟨secret, tag, ciphertext, hsecret, htag, hciphertext, hown⟩, hpath, hview, hroot,
        hverified⟩, hequipped, hafter⟩
    · rw [if_pos hverified] at hrest
      cases hrest
  · rintro ⟨own, path, view, classRoot, equipped, hopened, hequipped, hafter⟩
    obtain ⟨statementKey, hpinned, haccepted⟩ := hopened.accepted
    obtain ⟨secret, tag, ciphertext, hsecret, htag, hciphertext, hown⟩ := hopened.sealed
    refine ⟨statementKey, hpinned, (), haccepted, secret, hsecret, tag, htag, ciphertext,
      hciphertext, own, hown, path, hopened.refilled, view, hopened.body, classRoot,
      hopened.named, ?_⟩
    rw [if_neg (not_not.2 hopened.verified), except_bind_eq_ok]
    exact ⟨equipped, hequipped, hafter⟩

-- A host that goes on took what it was handed, or is as it was.
theorem take_eq_some (htake : (take (some member) envelope).2 = some after) :
    member.receive envelope = .ok after ∨ after = member := by
  unfold take at htake
  cases hreceive : member.receive envelope with
  | ok equipped =>
      simp only [hreceive, Option.some_inj] at htake
      exact .inl (congrArg Except.ok htake)
  | error stop =>
      cases stop with
      | refused refusal =>
          simp only [hreceive, Option.some_inj] at htake
          exact .inr htake.symm
      | panicked => simp [hreceive] at htake

end Member

namespace Operator.Envelope

variable {depth : Nat} [Primitives]

-- Everything of the envelope a state hands out but the signature.
structure Carries (envelope : Envelope) (served : AgoraState depth) : Prop where
  epoch : envelope.epoch = served.epoch
  ephemeralKey : envelope.ephemeralKey = served.ephemeralKeyNow
  body : envelope.body = served.envelopeNow.body
  ciphertexts : envelope.ciphertexts = served.ciphertextsNow

end Operator.Envelope

namespace Member

section Opening

variable {depth : Nat} [Primitives] {member after : Member depth} {served : AgoraState depth}
  {envelope : Envelope} {own : OwnCiphertext} {path : Witness depth} {view : BodyView}
  {classRoot : Root}

-- What the lookup tag of the member's own is derived from.
def tagInput (member : Member depth) (served : AgoraState depth) :
    Option (List UInt8 × List UInt8) := do
  let secret ← (member.stored (Credential.loadInboxSecret member.agora)).toOption
  let agreed ← Inbox.agree secret served.ephemeralKeyNow
  return served.sealInput .InboxTag member.policyClass (Inbox.inboxPublicKey secret) agreed

-- The tags of an envelope and the one a member looks up tell their inputs apart.
def Distinguished (member : Member depth) (served : AgoraState depth) : Prop :=
  Kdf.CollisionFree INBOX_TAG_LEN {input | input ∈ served.sealInputs .InboxTag ∨
    member.tagInput served = some input}

-- A ciphertext found under a member's own tag was sealed to the member's own key and class.
theorem Distinguished.own_of_ciphertext (hdistinguished : Distinguished member served)
    {secret : InboxSecretKey} {agreed : Inbox.Agreed}
    (hsecret : member.stored (Credential.loadInboxSecret member.agora) = .ok secret)
    (hagreed : Inbox.agree secret served.ephemeralKeyNow = some agreed) {ciphertext : Ciphertext}
    (hmem : ciphertext ∈ served.ciphertextsNow)
    (htag : ciphertext.tag = Inbox.lookupTag agreed served.ephemeralKeyNow
      (Inbox.inboxPublicKey secret) member.policyClass) :
    ∃ entry position witness, served.classes[member.policyClass]? = some entry ∧
      entry.tree.witness position = some witness ∧
      ciphertext.bytes = served.sealNow (Inbox.sealKey agreed served.ephemeralKeyNow
        (Inbox.inboxPublicKey secret) member.policyClass)
        (served.ownPlain position entry.tree.occupiedHeight witness.siblings) := by
  obtain ⟨policyClass, entry, position, leaf, hentry, hposition, hciphertext⟩ :=
    AgoraState.mem_ciphertextsNow.1 hmem
  simp only [AgoraState.ciphertextFor_eq, Option.bind_eq_bind, Option.bind_eq_some_iff,
    Option.pure_def, Option.some_inj] at hciphertext
  obtain ⟨inbox, hdelivered, shared, hshared, witness, hwitness, rfl⟩ := hciphertext
  obtain ⟨hlive, hagrees⟩ := AgoraState.deliveredKey_eq_some.1 hdelivered
  have hsealed : AgoraState.SealedTo served ⟨policyClass, entry, position, leaf⟩ inbox :=
    ⟨AgoraState.mem_targets.2 ⟨hentry, hposition⟩, hlive, hagrees, by rw [hwitness]; rfl⟩
  have hown : member.tagInput served = some (served.sealInput .InboxTag member.policyClass
      (Inbox.inboxPublicKey secret) agreed) := by
    simp [tagInput, hsecret, hagreed, Except.toOption]
  have hinput := hdistinguished (.inl (AgoraState.mem_sealInputs hsealed hshared)) (.inr hown)
    (congrArg (fun tag : InboxTag => tag.asBytes.toList) htag)
  obtain ⟨_, rfl, rfl⟩ := AgoraState.sealInput_inj hinput
  obtain rfl : shared = agreed := by
    have hexpose : shared.expose = agreed.expose :=
      Bytes.toList_inj.1 (congrArg Prod.fst hinput)
    cases shared
    cases agreed
    exact congrArg Inbox.Agreed.mk hexpose
  exact ⟨entry, position, witness, hentry, hwitness, rfl⟩

-- What a member opens of an envelope the operator handed out: its own position and path there,
-- and the operator's body.
theorem Opened.opens (hopened : Opened member envelope own path view classRoot)
    (hcarries : envelope.Carries served) (hagora : member.agora = served.agora)
    (hsound : served.Sound) (hdepth : depth < 64) (hopens : Inbox.OpenAfterSeal)
    (hbounded : served.bodyNow.encode.length < 2 ^ 64)
    (hdistinguished : Distinguished member served) :
    ∃ entry, served.classes[member.policyClass]? = some entry ∧
      entry.tree.witness own.position = some path ∧ view = served.bodyNow.view ∧
      classRoot = entry.tree.root := by
  obtain ⟨secret, tag, ciphertext, hsecret, htag, hciphertext, hown⟩ := hopened.sealed
  rw [hcarries.ephemeralKey] at htag hown
  simp only [ownLookupTag, Option.bind_eq_bind, Option.bind_eq_some_iff, Option.pure_def,
    Option.some_inj] at htag
  obtain ⟨agreed, hagreed, rfl⟩ := htag
  rw [Envelope.ciphertext, hcarries.ciphertexts] at hciphertext
  obtain ⟨entry, position, witness, hentry, hwitness, hbytes⟩ :=
    hdistinguished.own_of_ciphertext hsecret hagreed (List.mem_of_find?_eq_some hciphertext)
      (of_decide_eq_true (List.find?_some hciphertext :))
  obtain ⟨hlength, _, hsiblings⟩ := Tree.witness_eq_some hwitness
  have hheight : entry.tree.occupiedHeight ≤ depth := Tree.occupiedHeight_le hdepth entry.tree
  have hcounted : entry.tree.leaves.length ≤ 2 ^ 64 := Tree.length_le_of_lt hdepth entry.tree
  have hread := AgoraState.openOwnCiphertext_sealNow hopens member.policyClass hagreed
    (Nat.lt_of_lt_of_le hlength hcounted)
    (Nat.lt_of_le_of_lt hheight (Nat.lt_trans hdepth (by decide)))
    (Nat.le_trans hheight (Nat.le_of_eq witness.length_siblings.symm))
  rw [hbytes, hagora, hcarries.epoch, hread, Except.ok.injEq] at hown
  have hpath : (entries ((witness.siblings.take entry.tree.occupiedHeight).flatMap
      fun sibling => sibling.asBytes.toList)).map Digest.fromBytes =
      witness.siblings.take entry.tree.occupiedHeight := by
    rw [entries_flatMap _ Digest.asBytes, List.map_map]
    exact List.map_id _
  have hrefilled := hopened.refilled
  rw [← hown, hpath, Tree.fromPrefix_take hdepth hwitness, Option.some_inj] at hrefilled
  have hbody := hopened.body
  rw [hcarries.body, hcarries.epoch, hagora, ← hown] at hbody
  have hview : view = served.bodyNow.view := by
    have hnow := AgoraState.openBody_envelopeNow hopens hbounded
    exact Except.ok.inj (hbody.symm.trans hnow)
  refine ⟨entry, hentry, ?_, hview, ?_⟩
  · rw [← hown, ← hrefilled]
    exact hwitness
  · have hroot := hopened.named
    rw [hview, hsound.classRoot_view hentry] at hroot
    exact (Option.some.inj hroot).symm

-- A member that holds the operator's view of one epoch: both exclusion sets whole, the recorded
-- roots, its own path in its class tree, and the epoch's keys.
structure Follows (member : Member depth) (served : AgoraState depth) : Prop where
  epoch : member.epoch = some served.epoch
  revocations : member.revocations = served.revocations
  spends : member.spends = served.spends
  placed : ∃ entry path roots, served.classes[member.policyClass]? = some entry ∧
    entry.tree.witness member.position = some path ∧ member.path = some path ∧
    served.rootsIn served.epoch member.policyClass = .ok roots ∧ member.roots = some roots ∧
    verifies member.leaf path roots.policyClass = true
  fetchKey : member.fetchKey = some served.fetchKeyNow
  tagKey : member.tagKeys.getLast? = some (served.epoch, served.tagKeyNow)

-- Only the store sets two members apart.
theorem Follows.of_store (hfollows : Follows member served) (store : Contents) :
    Follows { member with store } served :=
  ⟨hfollows.epoch, hfollows.revocations, hfollows.spends, hfollows.placed, hfollows.fetchKey,
    hfollows.tagKey⟩

theorem Opened.follows (hopened : Opened member envelope own path view classRoot)
    (hcarries : envelope.Carries served) (hagora : member.agora = served.agora)
    (hsound : served.Sound) (hdepth : depth < 64) (hopens : Inbox.OpenAfterSeal)
    (hbounded : served.bodyNow.encode.length < 2 ^ 64)
    (hdistinguished : Distinguished member served) :
    Follows (member.apply envelope.epoch own.position path view classRoot) served := by
  obtain ⟨entry, hentry, hwitness, rfl, rfl⟩ :=
    hopened.opens hcarries hagora hsound hdepth hopens hbounded hdistinguished
  have hroots : served.rootsIn served.epoch member.policyClass =
      .ok ⟨entry.tree.root, served.bodyNow.revocationRoot, served.bodyNow.spendRoot⟩ := by
    have hsnapshot : served.snapshotNow = served.rootsNow := by
      rw [AgoraState.snapshotNow, hsound.rooted, Option.getD_some]
    refine AgoraState.rootsIn_eq_ok.2 ⟨served.rootsNow, entry.tree.root, hsound.rooted, ?_, ?_⟩
    · simp [AgoraState.rootsNow, hentry]
    · rw [← hsnapshot]
      rfl
  constructor
  · rw [hcarries.epoch]
    rfl
  · simp only [apply, Body.revoked_view]
    exact served.revocations.keys_foldl_insert_keys
  · simp only [apply, Body.spent_view]
    exact served.spends.keys_foldl_insert_keys
  · exact ⟨entry, path, _, hentry, hwitness, rfl, hroots, rfl, hopened.verified⟩
  · rfl
  · simp only [apply, hcarries.epoch, List.getLast?_append, List.getLast?_singleton, Option.some_or]
    rfl

end Opening

end Member

end Nymora.Protocol
