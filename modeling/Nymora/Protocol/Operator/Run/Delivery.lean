import Nymora.Protocol.Operator.Envelope.Opening
import Nymora.Protocol.Operator.Run.Arrival

namespace Nymora.Protocol.Operator.AgoraState

open Nymora.Core
open Nymora.Crypto
open Nymora.Accumulator
open Nymora.Circuits
open Method
open Std (ExtTreeMap ExtTreeSet)

-- Delivery order: by class, then by position.
def InOrder (left right : PolicyClass × Nat × Commitment) : Prop :=
  compare left.1 right.1 = .lt ∨ left.1 = right.1 ∧ left.2.1 < right.2.1

variable [Primitives] {depth : Nat} {state : AgoraState depth}

-- A landed leaf whose live inbox key agrees contributorily with the boundary's ephemeral secret.
def Recipient (state : AgoraState depth) (key : InboxPublicKey) (policyClass : PolicyClass)
    (position : Nat) (leaf : Commitment) : Prop :=
  (∃ entry : ClassState depth, state.classes[policyClass]? = some entry ∧
    entry.positions[leaf]? = some position) ∧
  state.inboxLive leaf = some key ∧ (Inbox.agree state.ephemeralSecretNow key).isSome

-- An envelope's ciphertexts, one by one, are those of the recipients in delivery order.
def Delivers (state : AgoraState depth) (envelope : Envelope) : Prop :=
  ∃ recipients : List (PolicyClass × Nat × Commitment), recipients.Pairwise InOrder ∧
    (∀ policyClass position leaf, (policyClass, position, leaf) ∈ recipients ↔
      ∃ key, Recipient state key policyClass position leaf) ∧
    envelope.ciphertexts.map some = recipients.map fun (policyClass, position, leaf) =>
      (state.classes[policyClass]?).bind fun entry =>
        state.ciphertextFor policyClass entry position leaf

-- What a member makes of an envelope: its own ciphertext is there and opens, the path it
-- carries verifies the member's leaf against the body's root, and the body is the operator's.
def Receives (state : AgoraState depth) (envelope : Envelope) (inboxSecret : InboxSecretKey)
    (policyClass : PolicyClass) (position : Nat) (leaf : Commitment) : Prop :=
  ∃ (tag : InboxTag) (ciphertext : Ciphertext) (own : OwnCiphertext) (witness : Witness depth)
    (view : BodyView) (root : Root) (body : Body),
    ownLookupTag inboxSecret envelope.ephemeralKey policyClass = some tag ∧
    envelope.ciphertext tag = some ciphertext ∧
    openOwnCiphertext inboxSecret envelope.ephemeralKey state.agora envelope.epoch policyClass
      ciphertext.bytes = .ok own ∧
    own.position = position ∧
    Witness.fromPrefix own.position ((entries own.path).map .fromBytes) = some witness ∧
    BodyView.openBody own.bodyKey state.agora envelope.epoch envelope.body = .ok view ∧
    view.classRoot policyClass = some root ∧
    verifies leaf witness root = true ∧
    currentBody state = .ok body state ∧
    view.epoch = body.epoch ∧ view.classRoots = body.classRoots ∧
    view.revocationRoot = body.revocationRoot ∧ view.spendRoot = body.spendRoot ∧
    view.revoked = body.revoked ∧ view.spent = body.spent ∧
    view.tagKey = body.tagKey ∧ view.fetchKey = body.fetchKey

def recipients (state : AgoraState depth) : List (PolicyClass × Nat × Commitment) :=
  state.classes.toList.flatMap fun (policyClass, entry) =>
    (entry.byPosition.filter fun (_, leaf) => (state.deliveredKey leaf).isSome).map
      fun (position, leaf) => (policyClass, position, leaf)

theorem mem_recipients {policyClass : PolicyClass} {position : Nat} {leaf : Commitment} :
    (policyClass, position, leaf) ∈ state.recipients ↔
      ∃ key, Recipient state key policyClass position leaf := by
  simp only [recipients, Recipient, List.mem_flatMap, List.mem_map, List.mem_filter, Prod.exists,
    Prod.mk.injEq, ExtTreeMap.mem_toList_iff_getElem?_eq_some, ClassState.mem_byPosition,
    Option.isSome_iff_exists, deliveredKey_eq_some]
  constructor
  · rintro ⟨named, entry, hentry, place, landed, ⟨hposition, key, hlive, hagrees⟩, rfl, rfl, rfl⟩
    exact ⟨key, ⟨entry, hentry, hposition⟩, hlive, hagrees⟩
  · rintro ⟨key, ⟨entry, hentry, hposition⟩, hlive, hagrees⟩
    exact ⟨policyClass, entry, hentry, position, leaf, ⟨hposition, key, hlive, hagrees⟩,
      rfl, rfl, rfl⟩

theorem recipients_inOrder (state : AgoraState depth) : state.recipients.Pairwise InOrder := by
  rw [recipients, List.pairwise_flatMap]
  constructor
  · rintro ⟨policyClass, entry⟩ _
    rw [List.pairwise_map]
    refine List.Pairwise.imp ?_ ((ClassState.byPosition_sorted entry).filter _)
    intro left right hlt
    exact Or.inr ⟨rfl, hlt⟩
  · refine List.Pairwise.imp ?_ ExtTreeMap.ordered_keys_toList
    rintro ⟨policyClass, entry⟩ ⟨other, later⟩ hlt left hleft right hright
    obtain ⟨_, _, rfl⟩ := List.mem_map.1 hleft
    obtain ⟨_, _, rfl⟩ := List.mem_map.1 hright
    exact Or.inl hlt

omit [Primitives] in
private theorem map_some_filterMap {α β : Type} {produce : α → Option β} {keep : α → Bool}
    {values : List α} (hkeep : ∀ value ∈ values, (produce value).isSome = keep value) :
    (values.filterMap produce).map some = (values.filter keep).map produce := by
  induction values with
  | nil => rfl
  | cons value values ih =>
      have hrest := ih fun other hother => hkeep other (List.mem_cons_of_mem _ hother)
      have hvalue := hkeep value List.mem_cons_self
      cases hproduced : produce value with
      | none =>
          have hdropped : ¬ keep value = true := by simp [← hvalue, hproduced]
          rw [List.filterMap_cons_none hproduced, List.filter_cons_of_neg hdropped, hrest]
      | some produced =>
          have hkept : keep value = true := by simp [← hvalue, hproduced]
          rw [List.filterMap_cons_some hproduced, List.filter_cons_of_pos hkept, List.map_cons,
            List.map_cons, hrest, hproduced]

theorem ciphertextsNow_eq (hdepth : depth < 64) (state : AgoraState depth) :
    state.ciphertextsNow.map some = state.recipients.map fun (policyClass, position, leaf) =>
      (state.classes[policyClass]?).bind fun entry =>
        state.ciphertextFor policyClass entry position leaf := by
  rw [ciphertextsNow, recipients, List.map_flatMap, List.map_flatMap]
  refine List.flatMap_congr ?_
  rintro ⟨policyClass, entry⟩ hentry
  rw [ExtTreeMap.mem_toList_iff_getElem?_eq_some] at hentry
  dsimp only at hentry ⊢
  rw [map_some_filterMap fun named hnamed =>
    ciphertextFor_isSome (Tree.length_le_of_lt hdepth entry.tree)
      (ClassState.mem_byPosition.1 hnamed), List.map_map]
  refine List.map_congr_left ?_
  rintro ⟨position, leaf⟩ _
  simp [hentry]

theorem delivers_envelopeNow (hdepth : depth < 64) (state : AgoraState depth) :
    Delivers state state.envelopeNow :=
  ⟨state.recipients, recipients_inOrder state, fun _ _ _ => mem_recipients,
    ciphertextsNow_eq hdepth state⟩

omit [Primitives] in
-- Where tags are distinct, looking a ciphertext's tag up finds that ciphertext.
theorem ciphertext_of_mem {envelope : Envelope} {ciphertext : Ciphertext}
    (hdistinct : (envelope.ciphertexts.map Ciphertext.tag).Nodup)
    (hmem : ciphertext ∈ envelope.ciphertexts) :
    envelope.ciphertext ciphertext.tag = some ciphertext := by
  unfold Envelope.ciphertext
  generalize envelope.ciphertexts = ciphertexts at hdistinct hmem
  induction ciphertexts with
  | nil => cases hmem
  | cons first ciphertexts ih =>
      obtain ⟨hfresh, hrest⟩ := List.nodup_cons.1 hdistinct
      by_cases htag : first.tag = ciphertext.tag
      · rcases List.mem_cons.1 hmem with rfl | hlater
        · simp
        · exact absurd (htag ▸ List.mem_map_of_mem hlater) hfresh
      · have hlater : ciphertext ∈ ciphertexts := by
          refine (List.mem_cons.1 hmem).resolve_left ?_
          rintro rfl
          exact htag rfl
        rw [List.find?_cons_of_neg (by simpa using htag)]
        exact ih hrest hlater

-- The current body names each class once, with the root of its tree.
theorem Sound.classRoot_view (hsound : state.Sound) {policyClass : PolicyClass}
    {entry : ClassState depth} (hentry : state.classes[policyClass]? = some entry) :
    state.bodyNow.view.classRoot policyClass = some entry.tree.root := by
  have hsnapshot : state.snapshotNow = state.rootsNow := by
    rw [snapshotNow, hsound.rooted, Option.getD_some]
  have hroot : state.rootsNow.classRoots[policyClass]? = some entry.tree.root := by
    simp [rootsNow, hentry]
  have hkey : state.rootsNow.classRoots.getKey? policyClass = some policyClass :=
    ExtTreeMap.getKey?_eq_some (ExtTreeMap.mem_iff_isSome_getElem?.2 (by rw [hroot]; rfl))
  have hfind := ExtTreeMap.find?_toList_eq_some_iff_getKey?_eq_some_and_getElem?_eq_some.2
    ⟨hkey, hroot⟩
  have hclassRoots : state.bodyNow.classRoots = state.rootsNow.classRoots.toList := by
    rw [← hsnapshot]
    rfl
  have hnamed : (fun named : PolicyClass × Root => decide (named.1 = policyClass)) =
      fun named => compare named.1 policyClass == .eq := by
    funext named
    by_cases heq : named.1 = policyClass
    · simp [heq]
    · simp [heq]
  rw [BodyView.classRoot, Body.classRoots_view, hclassRoots, hnamed, hfind, Option.map_some]

theorem currentBody_eq_ok (hlive : state.dissolved = false) :
    currentBody state = .ok state.bodyNow state := by
  simp only [currentBody, checkLive_bind_eq_ok, get_bind, pure_eq_ok, hlive, and_self]

-- What the operator wrote for a landed leaf is what the holder of its inbox secret reads.
theorem Sound.receives (hsound : state.Sound) (hpositive : 1 ≤ depth) (hdepth : depth < 64)
    (hopens : Inbox.OpenAfterSeal) (hlive : state.dissolved = false)
    (hdistinct : (state.envelopeNow.ciphertexts.map Ciphertext.tag).Nodup)
    (hbounded : state.bodyNow.encode.length < 2 ^ 64) {inboxSecret : InboxSecretKey}
    {policyClass : PolicyClass} {position : Nat} {leaf : Commitment}
    (hrecipient : Recipient state (Inbox.inboxPublicKey inboxSecret) policyClass position leaf)
    (hsymmetric : Inbox.Symmetric inboxSecret state.ephemeralSecretNow) :
    Receives state state.envelopeNow inboxSecret policyClass position leaf := by
  obtain ⟨⟨entry, hentry, hposition⟩, hkey, hagrees⟩ := hrecipient
  obtain ⟨agreed, hagreed⟩ := Option.isSome_iff_exists.1 hagrees
  have hown : Inbox.agree inboxSecret state.ephemeralKeyNow = some agreed :=
    hsymmetric.trans hagreed
  obtain ⟨_, _, _, hslot⟩ := entry.placed leaf position hposition
  have hlength : position < entry.tree.leaves.length := (List.getElem?_eq_some_iff.1 hslot).1
  obtain ⟨witness, hwitness⟩ := Option.isSome_iff_exists.1 (Tree.witness_isSome hdepth hlength)
  have hheight : entry.tree.occupiedHeight ≤ depth := Tree.occupiedHeight_le hdepth entry.tree
  have hcounted : entry.tree.leaves.length ≤ 2 ^ 64 := Tree.length_le_of_lt hdepth entry.tree
  obtain ⟨ciphertext, hciphertext⟩ :=
    exists_ciphertextFor policyClass hcounted hposition ⟨hkey, hagrees⟩
  have hmem : ciphertext ∈ state.envelopeNow.ciphertexts :=
    mem_ciphertextsNow.2 ⟨policyClass, entry, position, leaf, hentry, hposition, hciphertext⟩
  have hsealed := hciphertext
  simp only [ciphertextFor, hkey, hagreed, hwitness, Option.bind_eq_bind, Option.bind_some,
    Option.pure_def, Option.some_inj] at hsealed
  have hopened := openOwnCiphertext_sealNow hopens policyClass hown
    (Nat.lt_of_lt_of_le hlength hcounted)
    (Nat.lt_of_le_of_lt hheight (Nat.lt_trans hdepth (by decide)))
    (Nat.le_trans hheight (Nat.le_of_eq witness.length_siblings.symm))
  have hpath : (entries ((witness.siblings.take entry.tree.occupiedHeight).flatMap
      fun sibling => sibling.asBytes.toList)).map Digest.fromBytes =
      witness.siblings.take entry.tree.occupiedHeight := by
    rw [entries_flatMap _ Digest.asBytes, List.map_map]
    exact List.map_id _
  generalize ((witness.siblings.take entry.tree.occupiedHeight).flatMap
    fun sibling => sibling.asBytes.toList) = path at hopened hpath
  refine ⟨ciphertext.tag, ciphertext, ⟨state.bodyKeyNow, position, path⟩, witness,
    state.bodyNow.view, entry.tree.root, state.bodyNow, ?_, ciphertext_of_mem hdistinct hmem, ?_, rfl, ?_,
    openBody_envelopeNow hopens hbounded, hsound.classRoot_view hentry,
    Tree.verifies_witness hpositive hdepth hwitness hslot, currentBody_eq_ok hlive, rfl,
    Body.classRoots_view _, rfl, rfl, Body.revoked_view _, Body.spent_view _, rfl, rfl⟩
  · change ownLookupTag inboxSecret state.ephemeralKeyNow policyClass = some ciphertext.tag
    rw [ownLookupTag, hown, ← hsealed]
    rfl
  · rw [← hsealed]
    exact hopened
  · rw [hpath]
    exact Tree.fromPrefix_take hdepth hwitness

-- In every run over any proof system, the envelope of a live agora delivers to exactly its
-- recipients, and each of them receives. A body is a buffer in memory, so its length is a
-- 64-bit number.
theorem envelope_delivers {system : ProofSystem depth} {history : History system}
    {founding : Founding} {tagSecret statementEntropy : Bytes 32} {logSeed : Option (Bytes 32)}
    {created : AgoraState depth} (hpositive : 1 ≤ depth) (hdepth : depth < 64)
    (hopens : Inbox.OpenAfterSeal)
    (hcreate : create founding tagSecret statementEntropy logSeed = .ok created)
    (hexecution : Execution system created history state) (hlive : state.dissolved = false)
    (hdistinct : (state.envelopeNow.ciphertexts.map Ciphertext.tag).Nodup)
    (hbounded : state.bodyNow.encode.length < 2 ^ 64) :
    Delivers state state.envelopeNow ∧
    ∀ (inboxSecret : InboxSecretKey) (policyClass : PolicyClass) (position : Nat)
      (leaf : Commitment),
      Recipient state (Inbox.inboxPublicKey inboxSecret) policyClass position leaf →
        Inbox.Symmetric inboxSecret state.ephemeralSecretNow →
          Receives state state.envelopeNow inboxSecret policyClass position leaf := by
  have hsound := hexecution.sound (fresh_of_create hcreate).sound
  refine ⟨delivers_envelopeNow hdepth state, ?_⟩
  intro inboxSecret policyClass position leaf hrecipient hsymmetric
  exact hsound.receives hpositive hdepth hopens hlive hdistinct hbounded hrecipient hsymmetric

end Nymora.Protocol.Operator.AgoraState

namespace Nymora.Protocol.Operator.AgoraState.Sample

open Nymora.Core
open Nymora.Crypto
open Nymora.Accumulator
open scoped Nymora.Crypto.Reference

theorem members_start : start.classes[members]?.isSome := by decide +kernel

theorem founder_placed :
    (start.classes[members]?.get members_start).positions[founder]? = some 0 := by
  decide +kernel

theorem envelope_delivers_founder : Delivers start start.envelopeNow ∧
    Receives start start.envelopeNow inboxSecret members 0 founder := by
  have hexecution : Execution (accepting 2) start [] start := execution_played []
  have hdistinct : (start.envelopeNow.ciphertexts.map Ciphertext.tag).Nodup := by decide +kernel
  have hbounded : start.bodyNow.encode.length < 2 ^ 64 := by decide +kernel
  have hrecipient : Recipient start (Inbox.inboxPublicKey inboxSecret) members 0 founder :=
    ⟨⟨_, (Option.some_get members_start).symm, founder_placed⟩, by decide +kernel,
      by decide +kernel⟩
  have hsymmetric : Inbox.Symmetric inboxSecret start.ephemeralSecretNow := by
    unfold Inbox.Symmetric
    decide +kernel
  obtain ⟨hdelivers, hreceives⟩ := envelope_delivers (by decide) (by decide)
    Reference.openAfterSeal create_start hexecution start_live hdistinct hbounded
  exact ⟨hdelivers, hreceives inboxSecret members 0 founder hrecipient hsymmetric⟩

end Nymora.Protocol.Operator.AgoraState.Sample
