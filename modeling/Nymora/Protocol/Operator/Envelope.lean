import Nymora.Protocol.Operator.State

namespace Nymora.Protocol.Operator

open Nymora.Core
open Nymora.Crypto
open Nymora.Accumulator
open Std (ExtTreeMap ExtTreeSet)

-- The shared contents of one boundary: what the body carries.
structure Body where
  epoch : Epoch
  classRoots : List (PolicyClass × Root)
  revocationRoot : Root
  spendRoot : Root
  revoked : List (Bytes 32)
  spent : List (Bytes 32)
  tagKey : TagKey
  fetchKey : FetchKey
deriving DecidableEq

-- The canonical layout `BodyView` reads.
def Body.encode (body : Body) : List UInt8 :=
  body.epoch.toLeBytes ++
    LittleEndian.ofNat 8 body.classRoots.length ++
    body.classRoots.flatMap (fun (policyClass, root) =>
      policyClass.asBytes.toList ++ root.asBytes.toList) ++
    body.revocationRoot.asBytes.toList ++
    body.spendRoot.asBytes.toList ++
    LittleEndian.ofNat 8 body.revoked.length ++
    body.revoked.flatMap Bytes.toList ++
    LittleEndian.ofNat 8 body.spent.length ++
    body.spent.flatMap Bytes.toList ++
    body.tagKey.expose.toList ++
    body.fetchKey.expose.toList

-- One member's ciphertext: the lookup tag and the sealed bytes.
structure Ciphertext where
  tag : InboxTag
  bytes : List UInt8
deriving DecidableEq

-- One signed operator statement carrying the encrypted body and one ciphertext per live
-- credential.
structure Envelope where
  epoch : Epoch
  ephemeralKey : InboxPublicKey
  body : List UInt8
  ciphertexts : List Ciphertext
  head : Option EmbeddedHead
  signature : Bytes 64
deriving DecidableEq

namespace Envelope

variable [Primitives]

def ciphertextsDigest (envelope : Envelope) : Bytes 32 :=
  Protocol.ciphertextsDigest (envelope.ciphertexts.map fun ciphertext =>
    (ciphertext.tag, ciphertext.bytes))

-- This envelope's signed statement, bound to the viewer's agora.
def statement (envelope : Envelope) (agora : AgoraId) : EnvelopeStatement where
  agora := agora
  epoch := envelope.epoch
  ephemeralKey := envelope.ephemeralKey
  body := envelope.body
  ciphertextsDigest := envelope.ciphertextsDigest
  head := envelope.head

omit [Primitives] in
-- The ciphertext under a tag, if the envelope carries one.
def ciphertext (envelope : Envelope) (tag : InboxTag) : Option Ciphertext :=
  envelope.ciphertexts.find? fun ciphertext => ciphertext.tag = tag

end Envelope

-- A class's landed leaves in position order.
def ClassState.byPosition {depth : Nat} (entry : ClassState depth) : List (Nat × Commitment) :=
  (entry.positions.toList.map fun (leaf, position) => (position, leaf)).insertionSort
    fun left right => left.1 < right.1 ∨ left.1 = right.1 ∧ (compare left.2 right.2).isLE

namespace AgoraState

variable {depth : Nat}

-- The roots the current epoch opened with. Every reachable state has them.
def snapshotNow (state : AgoraState depth) : Snapshot :=
  (state.history[state.epoch.get]?).getD
    ⟨∅, .fromBytes (Bytes.zero 32), .fromBytes (Bytes.zero 32)⟩

variable [Primitives]

def tagKeyNow (state : AgoraState depth) : TagKey :=
  deriveTagKey state.tagSecret.toList state.agora state.epoch

def fetchKeyNow (state : AgoraState depth) : FetchKey :=
  deriveFetchKey state.tagSecret.toList state.agora state.epoch

-- The current epoch's shared body.
def bodyNow (state : AgoraState depth) : Body where
  epoch := state.epoch
  classRoots := state.snapshotNow.classRoots.toList
  revocationRoot := state.snapshotNow.revocation
  spendRoot := state.snapshotNow.spend
  revoked := state.revocations.keys
  spent := state.spends.keys
  tagKey := state.tagKeyNow
  fetchKey := state.fetchKeyNow

-- The operator's secrets for one boundary, all derived from its one secret and the epoch.
def ephemeralSecretNow (state : AgoraState depth) : InboxSecretKey :=
  Inbox.deriveEphemeralSecret state.tagSecret.toList state.agora state.epoch

def ephemeralKeyNow (state : AgoraState depth) : InboxPublicKey :=
  Inbox.inboxPublicKey state.ephemeralSecretNow

def bodyKeyNow (state : AgoraState depth) : BodyKey :=
  Inbox.deriveBodyKey state.tagSecret.toList state.agora state.epoch

-- A buffer sealed in place, the authentication tag appended.
def sealNow (state : AgoraState depth) (key : Bytes 32) (plain : List UInt8) : List UInt8 :=
  let (buffer, tag) := Inbox.sealInPlace key
    (Inbox.associatedData state.agora state.epoch).toList plain
  buffer ++ tag.toList

-- What one member's ciphertext carries: the body key, the position, and the path below the
-- occupied height.
def ownPlain (state : AgoraState depth) (position height : Nat) (siblings : List Node) :
    List UInt8 :=
  state.bodyKeyNow.expose.toList ++ LittleEndian.ofNat 8 position ++ [UInt8.ofNat height] ++
    (siblings.take height).flatMap fun sibling => sibling.asBytes.toList

-- The ciphertext of one landed leaf; `none` for a leaf that nothing is delivered to.
def ciphertextFor (state : AgoraState depth) (policyClass : PolicyClass)
    (entry : ClassState depth) (position : Nat) (leaf : Commitment) : Option Ciphertext := do
  let inbox ← state.inboxLive leaf
  let agreed ← Inbox.agree state.ephemeralSecretNow inbox
  let witness ← entry.tree.witness position
  let plain := state.ownPlain position entry.tree.occupiedHeight witness.siblings
  let key := Inbox.sealKey agreed state.ephemeralKeyNow inbox policyClass
  return {
    tag := Inbox.lookupTag agreed state.ephemeralKeyNow inbox policyClass
    bytes := state.sealNow key plain }

-- One ciphertext per live credential per class, in class-then-position order.
def ciphertextsNow (state : AgoraState depth) : List Ciphertext :=
  state.classes.toList.flatMap fun (policyClass, entry) =>
    entry.byPosition.filterMap fun (position, leaf) =>
      state.ciphertextFor policyClass entry position leaf

-- The log's latest signed head.
def headNow (state : AgoraState depth) : Option EmbeddedHead := do
  let log ← state.log
  let head ← log.heads.getLast?
  return { sequence := head.sequence, head := head.head, signature := head.signature }

-- The current epoch's envelope, signed.
def envelopeNow (state : AgoraState depth) : Envelope :=
  let unsigned : Envelope := {
    epoch := state.epoch
    ephemeralKey := state.ephemeralKeyNow
    body := state.sealNow state.bodyKeyNow.expose state.bodyNow.encode
    ciphertexts := state.ciphertextsNow
    head := state.headNow
    signature := Bytes.zero 64 }
  let digest := (unsigned.statement state.agora).digest
  { unsigned with signature := state.statementSeed.sign (Field.fromId digest) }

end AgoraState

end Nymora.Protocol.Operator
