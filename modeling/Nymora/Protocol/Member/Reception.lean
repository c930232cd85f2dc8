import Nymora.Plonk.Evaluate.Theorems
import Nymora.Protocol.Member.Theorems

namespace Nymora.Protocol

open Nymora.Core
open Nymora.Crypto
open Nymora.Crypto.Signature (SigningSeed)
open Nymora.Accumulator
open Nymora.Circuits
open Nymora.Ports
open Operator
open Operator.AgoraState (Recipient)
open Credential
open FaultyStore (Works works_bind works_erase works_forM works_pure works_put works_unwinding)
open Method

section Loading

variable {agora : AgoraId} {contents : Contents} {slot : Slot}

-- On a store without faults a held value is read where it fits.
theorem load_working {size : Nat} {value : List UInt8} (hheld : contents (agora, slot) = some value)
    (hsize : value.length ≤ size) :
    SecureStorage.load agora slot size ⟨contents, []⟩ = .ok (some value) ⟨contents, []⟩ := by
  refine SecureStorage.load_eq_ok.2 ⟨rfl, rfl, hheld, ?_⟩
  intro found hfound
  rwa [← Option.some.inj hfound]

theorem loadSecret32_working {secret : Bytes 32}
    (hheld : contents (agora, slot) = some secret.toList) :
    loadSecret32 agora slot ⟨contents, []⟩ = .ok secret ⟨contents, []⟩ := by
  unfold loadSecret32
  rw [bind_eq_ok]
  refine ⟨_, _, load_working hheld (Nat.le_of_eq secret.length_toList), ?_⟩
  exact expect_eq_ok.2 ⟨Bytes.ofList?_toList secret, rfl⟩

end Loading

section Rolling

variable {agora : AgoraId} {contents : Contents} {current : Epoch} {cursor : Option Epoch}

-- A sweep within reach of the cursor works where the store does.
theorem discardExpired_working (hcursor : CursorIs agora contents cursor)
    (hreach : checkedReach cursor current = .ok ()) :
    ∃ kept, discardExpired agora current ⟨contents, []⟩ = .ok () ⟨kept, []⟩ := by
  have hload : loadCursor agora ⟨contents, []⟩ = .ok cursor ⟨contents, []⟩ :=
    loadCursor_eq_ok.2 ⟨rfl, rfl, hcursor⟩
  unfold discardExpired
  cases cursor with
  | none => exact ⟨contents, bind_eq_ok.2 ⟨none, _, hload, pure_eq_ok.2 ⟨rfl, rfl⟩⟩⟩
  | some first =>
      have hspan : checkedSpan first current = .ok first := by
        unfold checkedReach at hreach
        by_cases hsame : current = first
        · rw [hsame]
          exact checkedSpan_eq_ok.2 ⟨rfl, le_refl _, by omega⟩
        · simp only [if_neg hsame] at hreach
          cases hspan : checkedSpan first current with
          | error refusal =>
              rw [hspan] at hreach
              cases hreach
          | ok found => rw [(checkedSpan_eq_ok.1 hspan).1]
      have hsweep : Works ((first.upTo current).forM fun epoch => (do
          SecureStorage.delete agora (.EpochKey epoch)
          SecureStorage.delete agora (.EpochCert epoch) : Storing Unit)) :=
        works_forM fun epoch => works_bind (works_erase _) fun _ => works_erase _
      obtain ⟨result, kept, hswept⟩ := hsweep contents
      refine ⟨kept, bind_eq_ok.2 ⟨some first, _, hload, ?_⟩⟩
      exact expectOk_bind_eq_ok.2 ⟨first, hspan, hswept⟩

variable [Primitives] {keyStore : KeyStore} {epochSecret : FreshEntropy} {recordSize : Nat}

-- A roll within reach works where the store does and the root signs.
theorem rollEpoch_working (hcursor : CursorIs agora contents cursor)
    (hreach : checkedReach cursor current = .ok ()) {record : List UInt8}
    (hsign : signEpochRecord agora keyStore current
      (SigningSeed.mint epochSecret).publicKey.toList recordSize = .ok record) :
    ∃ kept, rollEpoch agora keyStore current epochSecret recordSize ⟨contents, []⟩ =
      .ok () ⟨kept, []⟩ := by
  obtain ⟨discarded, hdiscard⟩ := discardExpired_working hcursor hreach
  have hwrites : Works (do
      SecureStorage.store agora (.EpochKey current) (SigningSeed.mint epochSecret).expose.toList
      unwinding (SecureStorage.delete agora (.EpochKey current))
        (SecureStorage.store agora (.EpochCert current) record)
      SecureStorage.store agora .EpochCursor current.toLeBytes : Storing Unit) :=
    works_bind (works_put _ _) fun _ => works_bind (works_unwinding (works_put _ _)) fun _ =>
      works_put _ _
  obtain ⟨⟨⟩, kept, hwritten⟩ := hwrites discarded
  refine ⟨kept, ?_⟩
  unfold rollEpoch
  refine bind_eq_ok.2 ⟨cursor, _, loadCursor_eq_ok.2 ⟨rfl, rfl, hcursor⟩, ?_⟩
  refine expectOk_bind_eq_ok.2 ⟨(), hreach, ?_⟩
  refine expectOk_bind_eq_ok.2 ⟨record, hsign, ?_⟩
  exact bind_eq_ok.2 ⟨(), _, hdiscard, hwritten⟩

-- The software store signs for every epoch key.
theorem signEpochRecord_working (hpoints : Plonk.PointEncoding) (keys : SoftwareKeyStore)
    (agora : AgoraId) (current : Epoch) (epochSecret : FreshEntropy) :
    ∃ record, signEpochRecord agora keys.keyStore current
      (SigningSeed.mint epochSecret).publicKey.toList 256 = .ok record := by
  have hmessage : (Signature.epochCertMessage agora current
      (SigningSeed.mint epochSecret).publicKey.toList).isSome := by
    simp [Signature.epochCertMessage, Signature.decodePoint, SigningSeed.publicKey_eq,
      hpoints.fromBytes_toBytes]
  have hroom : 64 ≤ 256 - (8 + (SigningSeed.mint epochSecret).publicKey.toList.length + 8) := by
    rw [Bytes.length_toList]
    decide
  obtain ⟨written, hwritten⟩ := SoftwareKeyStore.signed_answers.2 ⟨hmessage, hroom⟩
  refine ⟨Framing.frame 8 (SigningSeed.mint epochSecret).publicKey.toList ++
    Framing.frame 8 written.val, ?_⟩
  unfold signEpochRecord
  have hlarge : ¬ 256 < 8 + (SigningSeed.mint epochSecret).publicKey.toList.length + 8 := by
    rw [Bytes.length_toList]
    decide
  simp only [if_neg hlarge]
  exact except_bind_eq_ok.2 ⟨written, hwritten, rfl⟩

end Rolling

namespace Member

variable {depth : Nat} [Primitives] {member : Member depth} {epoch : Epoch}

theorem roll_working (hpoints : Plonk.PointEncoding) {cursor : Option Epoch}
    (hcursor : CursorIs member.agora member.store cursor)
    (hreach : checkedReach cursor epoch = .ok ()) : ∃ after, member.roll epoch = .ok after := by
  obtain ⟨record, hsign⟩ := signEpochRecord_working hpoints member.keys member.agora epoch
    (member.epochSeed epoch)
  obtain ⟨kept, hroll⟩ := rollEpoch_working hcursor hreach hsign
  refine ⟨{ member with store := kept }, operate_eq_ok.2 ⟨?_, rfl⟩⟩
  simp only [Credential.operate, DeviceRequest.run, Request.run, hroll]

-- The cursor a roll leaves is the epoch it rolled to.
theorem roll_cursor {after : Member depth} (hroll : member.roll epoch = .ok after) :
    CursorIs after.agora after.store (some epoch) := by
  obtain ⟨hafter, storage, hrun, hheld⟩ := roll_ok hroll
  obtain ⟨_, _, _, _, _, _, _, hwritten⟩ := rollEpoch_ok hrun
  rw [hafter, CursorIs, ← hheld, hwritten, Function.update_self]
  rfl

-- A host of this operator: the agora and the statement key are its own, and the cursor of the
-- store is the epoch the host last followed.
structure Home (operator : AgoraState depth) (member : Member depth) : Prop where
  joined : member.agora = operator.agora
  pinned : member.statementKey = some operator.statementKey
  cursor : ∃ first, CursorIs member.agora member.store (some first) ∧
    ∀ last, member.epoch = some last → first = last

variable {operator served : AgoraState depth} {after : Member depth} {envelope : Envelope}

theorem Home.receive (hhome : Home operator member)
    (hreceive : member.receive envelope = .ok after) : Home operator after := by
  obtain ⟨own, path, view, classRoot, equipped, _, hequipped, hroll⟩ := receive_eq_ok.1 hreceive
  rw [operate_storeTagKey, Except.ok.injEq] at hequipped
  have hcursor := roll_cursor hroll
  obtain ⟨hafter, _⟩ := roll_ok hroll
  subst hequipped
  rw [hafter] at hcursor ⊢
  refine ⟨hhome.joined, hhome.pinned, envelope.epoch, hcursor, ?_⟩
  intro last hlast
  exact Option.some.inj hlast

omit [Primitives] in
-- The inbox secret is what its slot holds.
theorem inboxSecret_eq_ok {secret : InboxSecretKey} :
    member.stored (loadInboxSecret member.agora) = .ok secret ↔
      member.store (member.agora, .InboxKey) = some secret.expose.toList := by
  unfold stored
  constructor
  · intro hstored
    split at hstored
    · next found storage hload =>
        unfold loadInboxSecret at hload
        obtain ⟨bytes, hbytes, rfl⟩ := bind_pure_eq_ok.1 hload
        rw [← Except.ok.inj hstored]
        exact (loadSecret32_ok hbytes).1
    · cases hstored
  · intro hheld
    have hload : loadInboxSecret member.agora ⟨member.store, []⟩ =
        .ok secret ⟨member.store, []⟩ :=
      bind_pure_eq_ok.2 ⟨secret.expose, loadSecret32_working hheld, rfl⟩
    rw [hload]

-- Whatever a host takes, it stays who it was: its agora, its class, its leaf, its inbox secret.
structure SameHost (member after : Member depth) : Prop where
  agora : after.agora = member.agora
  policyClass : after.policyClass = member.policyClass
  leaf : after.leaf = member.leaf
  inboxSecret : ∀ secret, member.stored (loadInboxSecret member.agora) = .ok secret →
    after.stored (loadInboxSecret after.agora) = .ok secret

theorem sameHost_receive (hreceive : member.receive envelope = .ok after) :
    SameHost member after := by
  obtain ⟨own, path, view, classRoot, equipped, _, hequipped, hroll⟩ := receive_eq_ok.1 hreceive
  rw [operate_storeTagKey, Except.ok.injEq] at hequipped
  obtain ⟨hafter, _⟩ := roll_ok hroll
  have hslot : after.store (equipped.agora, .InboxKey) =
      equipped.store (equipped.agora, .InboxKey) := roll_kept hroll rfl (by simp)
  subst hequipped
  rw [hafter]
  refine ⟨rfl, rfl, rfl, ?_⟩
  intro secret hsecret
  rw [inboxSecret_eq_ok] at hsecret ⊢
  refine hslot.trans ((Function.update_of_ne ?_ _ _).trans hsecret)
  simp

-- What it takes for the current envelope of a live operator to reach a member: the member is
-- behind it and within a roll's reach, its inbox key is the live one of its landed leaf, and no
-- two ciphertexts of the envelope carry one tag, the first match being the one that is opened.
structure Reaches (served : AgoraState depth) (member : Member depth) (secret : InboxSecretKey)
    (position : Nat) : Prop where
  behind : ∀ last ∈ member.epoch, last.get < served.epoch.get
  within : ∀ first, CursorIs member.agora member.store (some first) →
    checkedReach (some first) served.epoch = .ok ()
  stored : member.stored (loadInboxSecret member.agora) = .ok secret
  recipient :
    Recipient served (Inbox.inboxPublicKey secret) member.policyClass position member.leaf
  symmetric : Inbox.Symmetric secret served.ephemeralSecretNow
  distinct : (served.envelopeNow.ciphertexts.map Ciphertext.tag).Nodup
  distinguished : Distinguished member served
  bounded : served.bodyNow.encode.length < 2 ^ 64

-- A signed envelope the operator delivers opens to the member's own position.
theorem Reaches.opened {secret : InboxSecretKey} {position : Nat}
    (hreaches : Reaches served member secret position) (hhome : Home operator member)
    (hagora : served.agora = operator.agora) (hkey : served.statementKey = operator.statementKey)
    (hsound : served.Sound) (hlive : served.dissolved = false) (hpositive : 1 ≤ depth)
    (hdepth : depth < 64) (hopens : Inbox.OpenAfterSeal) (hcorrect : Signature.Correct) :
    ∃ own path view classRoot, own.position = position ∧
      Opened member served.envelopeNow own path view classRoot := by
  obtain ⟨tag, ciphertext, own, path, view, classRoot, _, htag, hciphertext, hown, hposition,
    hpath, hbody, hroot, hverified, _⟩ := hsound.receives hpositive hdepth hopens hlive
      hreaches.distinct hreaches.bounded hreaches.recipient hreaches.symmetric
  have hhere : served.agora = member.agora := hagora.trans hhome.joined.symm
  refine ⟨own, path, view, classRoot, hposition, ?_⟩
  constructor
  · refine ⟨operator.statementKey, hhome.pinned, acceptEnvelope_eq_ok.2 ⟨hreaches.behind, ?_⟩⟩
    rw [← hkey, ← hhere]
    exact hcorrect served.statementSeed _
  · refine ⟨secret, tag, ciphertext, hreaches.stored, htag, hciphertext, ?_⟩
    rw [← hhere]
    exact hown
  · exact hpath
  · rw [← hhere]
    exact hbody
  · exact hroot
  · exact hverified

-- What opens is applied and kept, and the epoch rolls.
theorem Opened.receive (hpoints : Plonk.PointEncoding) {own : OwnCiphertext}
    {path : Witness depth} {view : BodyView} {classRoot : Root}
    (hopened : Opened member envelope own path view classRoot) {first : Epoch}
    (hcursor : CursorIs member.agora member.store (some first))
    (hreach : checkedReach (some first) envelope.epoch = .ok ()) :
    ∃ after store, member.receive envelope = .ok after ∧
      after = { member.apply envelope.epoch own.position path view classRoot with store } := by
  let kept : Member depth := { member.apply envelope.epoch own.position path view classRoot with
    store := Function.update member.store (member.agora, .TagKey envelope.epoch)
      (some view.tagKey.expose.toList) }
  have hkept : CursorIs kept.agora kept.store (some first) := by
    have hother :
        (member.agora, Slot.EpochCursor) ≠ (member.agora, Slot.TagKey envelope.epoch) := by
      simp
    exact (Function.update_of_ne hother _ _).trans hcursor
  obtain ⟨after, hroll⟩ := roll_working hpoints hkept hreach
  refine ⟨after, after.store, receive_eq_ok.2 ⟨own, path, view, classRoot, kept, hopened,
    operate_storeTagKey _ _, hroll⟩, ?_⟩
  rw [(roll_ok hroll).1]

-- Delivery is enough for a member to follow the operator.
theorem Reaches.receive {secret : InboxSecretKey} {position : Nat}
    (hreaches : Reaches served member secret position) (hhome : Home operator member)
    (hagora : served.agora = operator.agora) (hkey : served.statementKey = operator.statementKey)
    (hsound : served.Sound) (hlive : served.dissolved = false) (hpositive : 1 ≤ depth)
    (hdepth : depth < 64) (hopens : Inbox.OpenAfterSeal) (hcorrect : Signature.Correct)
    (hpoints : Plonk.PointEncoding) :
    ∃ after, member.receive served.envelopeNow = .ok after ∧ Follows after served ∧
      after.position = position ∧ after.leaf = member.leaf := by
  obtain ⟨own, path, view, classRoot, hposition, hopened⟩ := hreaches.opened hhome hagora hkey
    hsound hlive hpositive hdepth hopens hcorrect
  obtain ⟨first, hcursor, _⟩ := hhome.cursor
  obtain ⟨after, store, hreceive, hafter⟩ :=
    hopened.receive hpoints hcursor (hreaches.within first hcursor)
  have hcarries : served.envelopeNow.Carries served := ⟨rfl, rfl, rfl, rfl⟩
  have hfollows := hopened.follows hcarries (hhome.joined.trans hagora.symm) hsound hdepth hopens
    hreaches.bounded hreaches.distinguished
  subst hafter
  exact ⟨_, hreceive, hfollows.of_store store, hposition, rfl⟩

end Member

end Nymora.Protocol
