import Nymora.Circuits.Statement
import Nymora.Core.Handoff
import Nymora.Crypto.Credential
import Nymora.Crypto.Inbox
import Nymora.Ports.KeyStore
import Nymora.Ports.Storage

namespace Nymora.Protocol.Credential

open Nymora.Core
open Nymora.Crypto
open Nymora.Ports
open Method

-- Fresh secret bytes from the host, consumed once.
abbrev FreshEntropy := Bytes 32

structure CredentialEntropy where
  credentialKey : FreshEntropy
  rootOpening : FreshEntropy
  inboxKey : FreshEntropy

-- The sizes of the buffers `authorizeMigration` writes into.
structure MigrationBuffers where
  rootPublicKey : Nat
  signature : Nat
  retireSignature : Nat
  handoff : Nat

structure Created (publicKeySize bindingSize : Nat) where
  commitment : Commitment
  inbox : InboxPublicKey
  root : RootMaterialWritten publicKeySize bindingSize

structure Migrated where
  commitment : Commitment
  spend : Core.Nullifier
  inbox : InboxPublicKey

def MAX_EPOCH_GAP : Nat := 100000

-- The epoch cursor, or `none` before the first certification.
def loadCursor (agora : AgoraId) : Storing (Option Epoch) := do
  match ← SecureStorage.load agora .EpochCursor 8 with
  | none => return none
  | some bytes =>
      if hlength : bytes.length = 8 then
        return some (Epoch.fromLeBytes bytes hlength)
      else
        throw .Unavailable

def checkedSpan (cursor current : Epoch) : Except ProtocolError Epoch :=
  if current.get < cursor.get ∨ current.get - cursor.get > MAX_EPOCH_GAP then
    .error .Malformed
  else
    .ok cursor

-- A secret slot of the wrong width is a corrupted store, as an absent one is.
def loadSecret32 (agora : AgoraId) (slot : Slot) : Storing (Bytes 32) := do
  match ← SecureStorage.load agora slot 32 with
  | none => throw .Unavailable
  | some bytes => expect (Bytes.ofList? 32 bytes) .Unavailable

def discardExpired (agora : AgoraId) (current : Epoch) : Storing Unit := do
  match ← loadCursor agora with
  | none => return ()
  | some cursor =>
      let first ← expectOk (checkedSpan cursor current)
      (first.upTo current).forM fun epoch => do
        SecureStorage.delete agora (.EpochKey epoch)
        SecureStorage.delete agora (.EpochCert epoch)

-- What `rollEpoch` requires of a stored cursor before it signs anything.
def checkedReach (cursor : Option Epoch) (current : Epoch) : Except ProtocolError Unit :=
  match cursor with
  | none => .ok ()
  | some cursor => if current = cursor then .ok () else (checkedSpan cursor current).map fun _ => ()

-- The stored certificate record: the framed epoch key, then the framed signature.
def signEpochRecord (agora : AgoraId) (keyStore : KeyStore) (epoch : Epoch)
    (epochPublicKey : List UInt8) (size : Nat) : Except ProtocolError (List UInt8) := do
  let signatureAt := 8 + epochPublicKey.length + 8
  if size < signatureAt then
    throw .Malformed
  let signature ← keyStore.signEpochCert ⟨agora, epoch, epochPublicKey⟩ (size - signatureAt)
  return Framing.frame 8 epochPublicKey ++ Framing.frame 8 signature.val

-- A stored certificate record: the epoch key as certified, and the root's signature over it.
structure EpochRecord where
  publicKey : List UInt8
  signature : List UInt8
deriving DecidableEq

-- Strict: truncation, overstated lengths and trailing bytes are all refused.
def EpochRecord.decode (bytes : List UInt8) : Except ProtocolError EpochRecord :=
  match Framing.unframe 8 bytes with
  | none => .error .Malformed
  | some (publicKey, rest) =>
      match Framing.unframe 8 rest with
      | none => .error .Malformed
      | some (signature, rest) => if rest = [] then .ok ⟨publicKey, signature⟩ else .error .Malformed

def loadEpochRecord (agora : AgoraId) (epoch : Epoch) (size : Nat) :
    Storing (Option EpochRecord) := do
  match ← SecureStorage.load agora (.EpochCert epoch) size with
  | none => return none
  | some bytes =>
      match EpochRecord.decode bytes with
      | .ok record => return some record
      | .error _ => throw .Unavailable

-- The four durable slots; a failure deletes the ones already written, as far as it can.
def storeCredentialMaterial (agora : AgoraId) (skCred : CredentialKey) (rRoot : RootOpening)
    (pkRoot : List UInt8) (skInbox : InboxSecretKey) : Storing Unit := do
  let discardSlot := fun slot => ignoring (SecureStorage.delete agora slot)
  SecureStorage.store agora .CredentialKey skCred.expose.toList
  unwinding (discardSlot .CredentialKey)
    (SecureStorage.store agora .RootOpening rRoot.expose.toList)
  unwinding (do discardSlot .RootOpening; discardSlot .CredentialKey)
    (SecureStorage.store agora .RootPublicKey pkRoot)
  unwinding (do discardSlot .RootPublicKey; discardSlot .RootOpening; discardSlot .CredentialKey)
    (SecureStorage.store agora .InboxKey skInbox.expose.toList)

variable [Primitives]

def create (agora : AgoraId) (keyStore : KeyStore) (entropy : CredentialEntropy)
    (publicKeySize bindingSize : Nat) : Storing (Created publicKeySize bindingSize) := do
  let root ← expectOk (keyStore.createRoot agora publicKeySize bindingSize)
  let skCred : CredentialKey := .new (Field.mintSecret entropy.credentialKey)
  let rRoot : RootOpening := .new (Field.mintSecret entropy.rootOpening)
  let commitment ← expect (commit root.publicKey.val skCred rRoot agora) .Malformed
  let skInbox : InboxSecretKey := .new (Inbox.mintInboxSecret entropy.inboxKey)
  storeCredentialMaterial agora skCred rRoot root.publicKey.val skInbox
  return ⟨commitment, Inbox.inboxPublicKey skInbox, root⟩

def loadInboxSecret (agora : AgoraId) : Storing InboxSecretKey := do
  let bytes ← loadSecret32 agora .InboxKey
  return .new bytes

def inboxPublicKey (agora : AgoraId) : Storing InboxPublicKey := do
  let secret ← loadInboxSecret agora
  return Inbox.inboxPublicKey secret

-- Stores one epoch's routing tag key; nothing deletes tag keys.
def storeTagKey (agora : AgoraId) (epoch : Epoch) (key : TagKey) : Storing Unit :=
  SecureStorage.store agora (.TagKey epoch) key.expose.toList

-- Signs before it destroys anything, and moves the cursor last.
def rollEpoch (agora : AgoraId) (keyStore : KeyStore) (current : Epoch)
    (epochSecret : FreshEntropy) (recordSize : Nat) : Storing Unit := do
  let cursor ← loadCursor agora
  expectOk (checkedReach cursor current)
  let secret := Signature.SigningSeed.mint epochSecret
  let record ← expectOk
    (signEpochRecord agora keyStore current secret.publicKey.toList recordSize)
  discardExpired agora current
  SecureStorage.store agora (.EpochKey current) secret.expose.toList
  unwinding (SecureStorage.delete agora (.EpochKey current))
    (SecureStorage.store agora (.EpochCert current) record)
  SecureStorage.store agora .EpochCursor current.toLeBytes

-- Deletes what acts for the credential: the inbox key, and what the cursor leads to.
def destroyActingMaterial (agora : AgoraId) : Storing Unit := do
  SecureStorage.delete agora .InboxKey
  match ← loadCursor agora with
  | none => return ()
  | some cursor =>
      discardExpired agora cursor
      SecureStorage.delete agora (.EpochKey cursor)
      SecureStorage.delete agora (.EpochCert cursor)
      SecureStorage.delete agora .EpochCursor

-- Returns the encoded handoff. Nothing is deleted before it is complete.
def authorizeMigration (agora : AgoraId) (keyStore : KeyStore)
    (successorPublicKey : List UInt8) (buffers : MigrationBuffers) : Storing (List UInt8) := do
  let skCred ← loadSecret32 agora .CredentialKey
  let rRoot ← loadSecret32 agora .RootOpening
  let pkRoot ← expect (← SecureStorage.load agora .RootPublicKey buffers.rootPublicKey)
    .Unavailable
  let inbox ← inboxPublicKey agora
  let signature ← expectOk
    (keyStore.signMigration ⟨agora, successorPublicKey⟩ buffers.signature)
  let retire ← expectOk
    (keyStore.signInboxCert ⟨agora, .Retire, inbox.asBytes.toList⟩ buffers.retireSignature)
  let written ← expectOk
    (MigrationHandoff.encode ⟨agora, .new skCred, .new rRoot, pkRoot, signature.val, retire.val⟩
      buffers.handoff)
  destroyActingMaterial agora
  return written

-- On the successor: the handoff's durable key under a fresh root and a fresh opening.
def completeMigration (agora : AgoraId) (handoff : MigrationHandoff) (rootPublicKey : List UInt8)
    (rootOpening inboxKey : FreshEntropy) : Storing Migrated := do
  ensure (handoff.agora = agora) .Malformed
  let rRoot : RootOpening := .new (Field.mintSecret rootOpening)
  let commitment ← expect (commit rootPublicKey handoff.credentialKey rRoot agora) .Malformed
  let consumedLeaf ← expect
    (commit handoff.rootPublicKey handoff.credentialKey handoff.rootOpening agora) .Malformed
  let spend := Nullifier.migration handoff.credentialKey consumedLeaf agora
  let skInbox : InboxSecretKey := .new (Inbox.mintInboxSecret inboxKey)
  storeCredentialMaterial agora handoff.credentialKey rRoot rootPublicKey skInbox
  return ⟨commitment, spend, Inbox.inboxPublicKey skInbox⟩

end Nymora.Protocol.Credential
