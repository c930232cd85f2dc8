import Nymora.Protocol.Bulletin.Theorems
import Nymora.Protocol.Operator.Envelope.Theorems

namespace Nymora.Protocol.Operator

open Nymora.Core
open Nymora.Crypto
open Nymora.Accumulator

namespace Body

variable {body : Body}

def classRootBytes (body : Body) : List UInt8 :=
  body.classRoots.flatMap fun named => named.1.asBytes.toList ++ named.2.asBytes.toList

-- The view that a body's layout is read as.
def view (body : Body) : BodyView where
  epoch := body.epoch
  classRootBytes := body.classRootBytes
  revocationRoot := body.revocationRoot
  spendRoot := body.spendRoot
  revokedBytes := body.revoked.flatMap Bytes.toList
  spentBytes := body.spent.flatMap Bytes.toList
  tagKey := body.tagKey
  fetchKey := body.fetchKey

theorem length_named (named : PolicyClass × Root) :
    (named.1.asBytes.toList ++ named.2.asBytes.toList).length = 2 * DIGEST_LEN := by
  rw [List.length_append, Bytes.length_toList, Bytes.length_toList, Nat.two_mul]

theorem classRoots_view (body : Body) : body.view.classRoots = body.classRoots := by
  rw [BodyView.classRoots, view, classRootBytes, chunksExact_flatMap (by decide) length_named,
    List.filterMap_map]
  simp

theorem revoked_view (body : Body) : body.view.revoked = body.revoked :=
  (entries_flatMap body.revoked id).trans (List.map_id _)

theorem spent_view (body : Body) : body.view.spent = body.spent :=
  (entries_flatMap body.spent id).trans (List.map_id _)

theorem parse_encode (hbounded : body.encode.length < 2 ^ 64) :
    BodyView.parse body.epoch body.encode = .ok body.view := by
  have hkey : ∀ bytes : Bytes 32, bytes.toList.length = DIGEST_LEN := Bytes.length_toList
  -- No table is longer than the layout, and no count exceeds its table.
  have htables : body.classRootBytes.length + (body.revoked.flatMap Bytes.toList).length +
      (body.spent.flatMap Bytes.toList).length ≤ body.encode.length := by
    rw [classRootBytes]
    simp only [encode, List.length_append]
    omega
  have hclasses : body.classRoots.length ≤ body.classRootBytes.length :=
    length_le_flatMap (by decide) length_named body.classRoots
  have hrevoked := length_le_flatMap (by decide) hkey body.revoked
  have hspent := length_le_flatMap (by decide) hkey body.spent
  have hlast : takeDigest body.fetchKey.expose.toList = .ok (body.fetchKey.expose, []) := by
    simpa using takeDigest_append body.fetchKey.expose []
  rw [classRootBytes] at htables hclasses
  simp only [BodyView.parse, encode, List.append_assoc, Epoch.toLeBytes,
    takeU64_append body.epoch.get_lt,
    takeU64_append (show body.classRoots.length < 2 ^ 64 by omega),
    takeU64_append (show body.revoked.length < 2 ^ 64 by omega),
    takeU64_append (show body.spent.length < 2 ^ 64 by omega), takeDigest_append, hlast,
    takeEntries_append length_named body.classRoots (by omega),
    takeEntries_append hkey body.revoked (by omega),
    takeEntries_append hkey body.spent (by omega), bind, Except.bind, ne_eq, not_true_eq_false,
    if_false]
  rfl

end Body

namespace AgoraState

variable [Primitives] {depth : Nat} {state : AgoraState depth}

theorem openSealed_sealNow (hopens : Inbox.OpenAfterSeal) (key : Bytes 32) (plain : List UInt8) :
    openSealed key state.agora state.epoch (state.sealNow key plain) = .ok plain :=
  openSealed_seal hopens key state.agora state.epoch plain

-- The body key opens the envelope's body to the current one.
theorem openBody_envelopeNow (hopens : Inbox.OpenAfterSeal)
    (hbounded : state.bodyNow.encode.length < 2 ^ 64) :
    BodyView.openBody state.bodyKeyNow state.agora state.envelopeNow.epoch
      state.envelopeNow.body = .ok state.bodyNow.view := by
  have hbody : state.envelopeNow.body =
      state.sealNow state.bodyKeyNow.expose state.bodyNow.encode := rfl
  have hepoch : state.envelopeNow.epoch = state.epoch := rfl
  have hparse : BodyView.parse state.epoch state.bodyNow.encode = .ok state.bodyNow.view :=
    Body.parse_encode hbounded
  rw [BodyView.openBody, hbody, hepoch, openSealed_sealNow hopens]
  simp only [bind, Except.bind, hparse]

-- A member that agrees with the operator reads its own ciphertext as it was written.
theorem openOwnCiphertext_sealNow (hopens : Inbox.OpenAfterSeal) (policyClass : PolicyClass)
    {inboxSecret : InboxSecretKey} {agreed : Inbox.Agreed} {position height : Nat}
    {siblings : List Node} (hagreed : Inbox.agree inboxSecret state.ephemeralKeyNow = some agreed)
    (hposition : position < 2 ^ 64) (hheight : height < 256) (hpath : height ≤ siblings.length) :
    openOwnCiphertext inboxSecret state.ephemeralKeyNow state.agora state.epoch policyClass
      (state.sealNow (Inbox.sealKey agreed state.ephemeralKeyNow
        (Inbox.inboxPublicKey inboxSecret) policyClass)
        (state.ownPlain position height siblings)) =
      .ok {
        bodyKey := state.bodyKeyNow
        position
        path := (siblings.take height).flatMap fun sibling => sibling.asBytes.toList } := by
  have hlength : ((siblings.take height).flatMap fun sibling => sibling.asBytes.toList).length =
      (UInt8.ofNat height).toNat * DIGEST_LEN := by
    rw [length_flatMap_of_width fun sibling : Node => sibling.asBytes.length_toList,
      List.length_take, Nat.min_eq_left hpath, UInt8.toNat_ofNat_of_lt' hheight]
  generalize hrest : ((siblings.take height).flatMap fun sibling => sibling.asBytes.toList) =
    path at *
  have hplain : state.ownPlain position height siblings = state.bodyKeyNow.expose.toList ++
      (LittleEndian.ofNat 8 position ++ UInt8.ofNat height :: path) := by
    rw [ownPlain, hrest]
    simp
  have hread : LittleEndian.toNat (LittleEndian.ofNat 8 position) = position :=
    LittleEndian.toNat_ofNat_of_lt (by simpa using hposition)
  have hlong : ¬ (state.bodyKeyNow.expose.toList ++
      (LittleEndian.ofNat 8 position ++ UInt8.ofNat height :: path)).length < 41 := by
    simp only [List.length_append, List.length_cons, Bytes.length_toList,
      LittleEndian.length_ofNat]
    omega
  simp only [openOwnCiphertext, hagreed, Option.elim, openSealed_sealNow hopens, bind, Except.bind,
    pure, Except.pure, hplain, DIGEST_LEN, Nat.reduceAdd, if_neg hlong]
  simp [hlength, hread]

end AgoraState

end Nymora.Protocol.Operator
