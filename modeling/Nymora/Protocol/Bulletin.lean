import Nymora.Crypto.Inbox
import Nymora.Crypto.Signature

namespace Nymora.Protocol

open Nymora.Core
open Nymora.Crypto

-- The latest signed log head, embedded where the agora keeps a log.
structure EmbeddedHead where
  sequence : Nat
  head : Bytes 32
  signature : Bytes 64
deriving DecidableEq

-- Everything an envelope's signature covers.
structure EnvelopeStatement where
  agora : AgoraId
  epoch : Epoch
  ephemeralKey : InboxPublicKey
  body : List UInt8
  ciphertextsDigest : Bytes 32
  head : Option EmbeddedHead
deriving DecidableEq

variable [Primitives]

-- The canonical statement digest: the exact bytes the statement key signs.
def EnvelopeStatement.digest (statement : EnvelopeStatement) : Bytes 32 :=
  let hasher := (((((ByteHasher.new .Bulletin).absorb statement.agora.asBytes.toList).absorb
    statement.epoch.toLeBytes).absorb statement.ephemeralKey.asBytes.toList).absorb
    statement.body).absorb statement.ciphertextsDigest.toList
  match statement.head with
  | none => (hasher.absorb [0]).finalize
  | some head =>
      ((((hasher.absorb [1]).absorb (LittleEndian.ofNat 8 head.sequence)).absorb
        head.head.toList).absorb head.signature.toList).finalize

-- The digest of a ciphertext list: the count, then each tag and ciphertext framed, in order.
def ciphertextsDigest (ciphertexts : List (InboxTag × List UInt8)) : Bytes 32 :=
  (ciphertexts.foldl (fun hasher (tag, bytes) => (hasher.absorb tag.asBytes.toList).absorb bytes)
    ((ByteHasher.new .EnvelopeCiphertexts).absorb
      (LittleEndian.ofNat 8 ciphertexts.length))).finalize

-- Accepts an envelope that is signed under the pinned statement key, for an epoch past the last.
def acceptEnvelope (statementKey : List UInt8) (statement : EnvelopeStatement)
    (signature : List UInt8) (current : Option Epoch) : Except ProtocolError Unit := do
  if current.any fun current => statement.epoch.get ≤ current.get then throw .Malformed
  let digest := statement.digest
  if ¬ Signature.verify statementKey (Field.fromId digest) signature then throw .Malformed
  return ()

-- Two validly signed envelopes for one epoch with different content prove a fork.
def envelopeEquivocation (statementKey : List UInt8) (a : EnvelopeStatement)
    (aSignature : List UInt8) (b : EnvelopeStatement) (bSignature : List UInt8) : Bool :=
  let aDigest := a.digest
  let bDigest := b.digest
  decide (a.epoch = b.epoch) && decide (aDigest ≠ bDigest) &&
    Signature.verify statementKey (Field.fromId aDigest) aSignature &&
    Signature.verify statementKey (Field.fromId bDigest) bSignature

-- The tag under which this credential's ciphertext for a class sits in an envelope.
def ownLookupTag (inboxSecret : InboxSecretKey) (ephemeral : InboxPublicKey)
    (policyClass : PolicyClass) : Option InboxTag := do
  let agreed ← Inbox.agree inboxSecret ephemeral
  let own := Inbox.inboxPublicKey inboxSecret
  return Inbox.lookupTag agreed ephemeral own policyClass

-- What one member's ciphertext carried.
structure OwnCiphertext where
  bodyKey : BodyKey
  position : Nat
  path : List UInt8
deriving DecidableEq

-- Decrypts a sealed buffer, ciphertext then 16-byte tag.
def openSealed (key : Bytes 32) (agora : AgoraId) (epoch : Epoch) (buffer : List UInt8) :
    Except ProtocolError (List UInt8) := do
  if buffer.length < Inbox.SEAL_TAG_LEN then throw .Malformed
  let split := buffer.length - Inbox.SEAL_TAG_LEN
  match Bytes.ofList? 16 (buffer.drop split) with
  | none => throw .Malformed
  | some tag =>
      Inbox.openInPlace key (Inbox.associatedData agora epoch).toList (buffer.take split) tag

-- Opens this credential's own ciphertext: body_key ‖ position ‖ height ‖ siblings.
def openOwnCiphertext (inboxSecret : InboxSecretKey) (ephemeral : InboxPublicKey)
    (agora : AgoraId) (epoch : Epoch) (policyClass : PolicyClass) (buffer : List UInt8) :
    Except ProtocolError OwnCiphertext := do
  let agreed ← (Inbox.agree inboxSecret ephemeral).elim (throw .Malformed) pure
  let own := Inbox.inboxPublicKey inboxSecret
  let key := Inbox.sealKey agreed ephemeral own policyClass
  let plain ← openSealed key agora epoch buffer
  if plain.length < DIGEST_LEN + 8 + 1 then throw .Malformed
  let bodyKey := plain.take DIGEST_LEN
  let position := (plain.drop DIGEST_LEN).take 8
  let rest := (plain.drop DIGEST_LEN).drop 8
  match rest, Bytes.ofList? 32 bodyKey with
  | height :: path, some bodyKey =>
      if path.length ≠ height.toNat * DIGEST_LEN then throw .Malformed
      return { bodyKey := .new bodyKey, position := LittleEndian.toNat position, path }
  | _, _ => throw .Malformed

def takeU64 (rest : List UInt8) : Except ProtocolError (Nat × List UInt8) :=
  if rest.length < 8 then .error .Malformed
  else .ok (LittleEndian.toNat (rest.take 8), rest.drop 8)

def takeDigest (rest : List UInt8) : Except ProtocolError (Bytes 32 × List UInt8) :=
  match Bytes.ofList? 32 (rest.take DIGEST_LEN) with
  | some bytes => .ok (bytes, rest.drop DIGEST_LEN)
  | none => .error .Malformed

-- `count` entries of `width` bytes; the product is computed in a checked `usize`.
def takeEntries (rest : List UInt8) (count width : Nat) :
    Except ProtocolError (List UInt8 × List UInt8) :=
  let total := count * width
  if total ≥ 2 ^ 64 ∨ rest.length < total then .error .Malformed
  else .ok (rest.take total, rest.drop total)

-- A decrypted body, read strictly.
structure BodyView where
  epoch : Epoch
  classRootBytes : List UInt8
  revocationRoot : Root
  spendRoot : Root
  revokedBytes : List UInt8
  spentBytes : List UInt8
  tagKey : TagKey
  fetchKey : FetchKey
deriving DecidableEq

-- The consecutive chunks of exactly this width; a shorter remainder is dropped.
def chunksExact (width : Nat) (bytes : List UInt8) : List (List UInt8) :=
  (List.range (bytes.length / width)).map fun chunk => (bytes.drop (chunk * width)).take width

def entries (bytes : List UInt8) : List (Bytes 32) :=
  (chunksExact DIGEST_LEN bytes).filterMap (Bytes.ofList? 32)

namespace BodyView

-- The layout's fields in order, refused unless they use up the plaintext exactly.
def parse (epoch : Epoch) (plain : List UInt8) : Except ProtocolError BodyView := do
  let (bodyEpoch, rest) ← takeU64 plain
  if bodyEpoch ≠ epoch.get then throw .Malformed
  let (classes, rest) ← takeU64 rest
  let (classRootBytes, rest) ← takeEntries rest classes (2 * DIGEST_LEN)
  let (revocationRoot, rest) ← takeDigest rest
  let (spendRoot, rest) ← takeDigest rest
  let (revokedCount, rest) ← takeU64 rest
  let (revokedBytes, rest) ← takeEntries rest revokedCount DIGEST_LEN
  let (spentCount, rest) ← takeU64 rest
  let (spentBytes, rest) ← takeEntries rest spentCount DIGEST_LEN
  let (tagKey, rest) ← takeDigest rest
  let (fetchKey, rest) ← takeDigest rest
  if rest ≠ [] then throw .Malformed
  return {
    epoch, classRootBytes
    revocationRoot := .fromBytes revocationRoot
    spendRoot := .fromBytes spendRoot
    revokedBytes, spentBytes
    tagKey := .new tagKey
    fetchKey := .new fetchKey }

-- Decrypts, then reads the layout.
def openBody (bodyKey : BodyKey) (agora : AgoraId) (epoch : Epoch) (buffer : List UInt8) :
    Except ProtocolError BodyView := do
  let plain ← openSealed bodyKey.expose agora epoch buffer
  parse epoch plain

omit [Primitives]

def classRoots (view : BodyView) : List (PolicyClass × Root) :=
  (chunksExact (2 * DIGEST_LEN) view.classRootBytes).filterMap fun pair => do
    let policyClass ← Bytes.ofList? 32 (pair.take DIGEST_LEN)
    let root ← Bytes.ofList? 32 (pair.drop DIGEST_LEN)
    return (.fromBytes policyClass, .fromBytes root)

def classRoot (view : BodyView) (policyClass : PolicyClass) : Option Root :=
  (view.classRoots.find? fun named => named.1 = policyClass).map Prod.snd

def revoked (view : BodyView) : List (Bytes 32) := entries view.revokedBytes

def spent (view : BodyView) : List (Bytes 32) := entries view.spentBytes

end BodyView

end Nymora.Protocol
