import Nymora.Lib.Network
import Nymora.Protocol.Credential.Device
import Nymora.Protocol.Operator.Query
import Nymora.Protocol.Operator.Run
import Nymora.Protocol.Proving

namespace Nymora.Protocol

open Nymora.Core
open Nymora.Crypto
open Nymora.Accumulator
open Nymora.Circuits
open Nymora.Proofs
open Nymora.Ports
open Operator

-- How a host stops short: with an error of the protocol, or in a panic.
inductive Stop
  | refused (refusal : ProtocolError)
  | panicked
deriving DecidableEq

namespace Stop

variable {α : Type}

-- `?` on a protocol result.
def answered : Except ProtocolError α → Except Stop α := Except.mapError .refused

-- `ok_or(..)?`.
def present (value : Option α) (refusal : ProtocolError) : Except Stop α :=
  value.elim (.error (.refused refusal)) .ok

-- `expect` on an option.
def expect (value : Option α) : Except Stop α := value.elim (.error .panicked) .ok

-- `expect` on a protocol result.
def must : Except ProtocolError α → Except Stop α := Except.mapError fun _ => .panicked

end Stop

-- A member of one agora: the stored credential, and the local copies a host keeps of what the
-- envelopes bring it. The seed the entropy is drawn from is the entropy itself here.
structure Member (depth : Nat) where
  agora : AgoraId
  policyClass : PolicyClass
  keys : SoftwareKeyStore
  epochSeed : Epoch → Credential.FreshEntropy
  store : Contents
  leaf : Commitment
  inbox : InboxPublicKey
  position : Nat
  revocations : ExclusionSet depth
  spends : ExclusionSet depth
  tagKeys : List (Epoch × TagKey)
  roots : Option EpochRoots
  path : Option (Witness depth)
  fetchKey : Option FetchKey
  statementKey : Option (Bytes 32)
  epoch : Option Epoch

namespace Member

variable {depth : Nat} [Primitives]

-- One call of the credential on the member's store, which fails only where the call does.
def operate (member : Member depth) (request : Credential.DeviceRequest) :
    Except Stop (Member depth) :=
  match Credential.operate member.agora member.store ⟨request, []⟩ with
  | (.ok _, store) => .ok { member with store }
  | (.error _, _) => .error .panicked

-- Certifies the credential for an epoch.
def roll (member : Member depth) (epoch : Epoch) : Except Stop (Member depth) :=
  member.operate
    (.member (.rollEpoch member.keys.keyStore epoch (member.epochSeed epoch) 256))

-- A new credential over an empty store, certified at an epoch.
def enroll (keys : SoftwareKeyStore) (entropy : Credential.CredentialEntropy)
    (epochSeed : Epoch → Credential.FreshEntropy) (agora : AgoraId) (policyClass : PolicyClass)
    (epoch : Epoch) : Except Stop (Member depth) :=
  match Credential.create agora keys.keyStore entropy 64 64 ⟨fun _ => none, []⟩ with
  | .error _ _ => .error .panicked
  | .ok made storage =>
      roll {
        agora, policyClass, keys, epochSeed
        store := storage.held
        leaf := made.commitment
        inbox := made.inbox
        position := 2 ^ 64 - 1
        revocations := .new
        spends := .new
        tagKeys := []
        roots := none
        path := none
        fetchKey := none
        statementKey := none
        epoch := none } epoch

-- What the device's store answers, where nothing in it fails.
def stored {α : Type} (member : Member depth) (load : Storing α) : Except ProtocolError α :=
  match load ⟨member.store, []⟩ with
  | .ok value _ => .ok value
  | .error refusal _ => .error refusal

-- Everything an opened envelope changes in the local copies.
def apply (member : Member depth) (epoch : Epoch) (position : Nat) (path : Witness depth)
    (view : BodyView) (classRoot : Root) : Member depth :=
  { member with
    epoch := some epoch
    position
    revocations := view.revoked.foldl ExclusionSet.insert .new
    spends := view.spent.foldl ExclusionSet.insert .new
    roots := some ⟨classRoot, view.revocationRoot, view.spendRoot⟩
    path := some path
    fetchKey := some view.fetchKey
    tagKeys := member.tagKeys ++ [(epoch, view.tagKey)] }

-- What a host does with a boundary envelope. Nothing is applied before the statement verifies and
-- the delivered path reproduces the body's class root; the member's epoch rolls last.
def receive (member : Member depth) (envelope : Envelope) : Except Stop (Member depth) := do
  let statementKey ← Stop.expect member.statementKey
  Stop.answered (acceptEnvelope statementKey.toList (envelope.statement member.agora)
    envelope.signature.toList member.epoch)
  let secret ← Stop.answered (member.stored (Credential.loadInboxSecret member.agora))
  let tag ← Stop.present (ownLookupTag secret envelope.ephemeralKey member.policyClass) .Malformed
  let ciphertext ← Stop.present (envelope.ciphertext tag) .Unavailable
  let own ← Stop.answered (openOwnCiphertext secret envelope.ephemeralKey member.agora
    envelope.epoch member.policyClass ciphertext.bytes)
  let path ← Stop.present
    (Witness.fromPrefix own.position ((entries own.path).map .fromBytes)) .Malformed
  let view ← Stop.answered
    (BodyView.openBody own.bodyKey member.agora envelope.epoch envelope.body)
  let classRoot ← Stop.expect (view.classRoot member.policyClass)
  if ¬ verifies member.leaf path classRoot then throw .panicked
  let equipped ← (member.apply envelope.epoch own.position path view classRoot).operate
    (.storeTagKey envelope.epoch view.tagKey)
  equipped.roll envelope.epoch

-- The spend key whose absence the member's routine proofs show, read into a zeroed buffer.
def spendKey (member : Member depth) : Except Stop (Bytes 32) := do
  let loaded ← Stop.must (member.stored (SecureStorage.load member.agora .CredentialKey 32))
  let bytes ← Stop.expect loaded
  let key ← Stop.expect (Bytes.ofList? 32 (bytes ++ List.replicate (32 - bytes.length) 0))
  return (Nullifier.migration (.new key) member.leaf member.agora).asBytes

-- The full chain witness, from the stored material and the delivered inclusion path, and the roots
-- it is for.
def acting (member : Member depth) (epoch : Epoch) :
    Except Stop (ChainWitness depth × EpochRoots) := do
  let roots ← Stop.expect member.roots
  let inclusion ← Stop.expect member.path
  let revocation ← Stop.expect (member.revocations.absenceWitness (revocationKey member.leaf))
  let spendKey ← member.spendKey
  let spend ← Stop.expect (member.spends.absenceWitness spendKey)
  let material ← Stop.must (member.stored (loadActingMaterial member.agora epoch 64 256))
  return (material.witness inclusion revocation spend, roots)

-- One vouch attestation into a session.
def vouch (member : Member depth) (system : ProofSystem depth) (epoch : Epoch)
    (session : SessionId) : Except Stop (system.Proof × Core.Nullifier) := do
  let acted ← member.acting epoch
  Stop.must (proveVouch system acted.1 member.agora epoch acted.2 session.asBytes.toList)

-- One approval of a quorum subject, recomputed from the served proposal first.
def approve (member : Member depth) (system : ProofSystem depth) (operator : AgoraState depth)
    (subject : SubjectId) : Except Stop (system.Proof × Core.Nullifier) := do
  let view ← Stop.expect (operator.proposal subject)
  if subjectId member.agora view.opened view.approvingClass view.decision view.nonce ≠ subject then
    throw .panicked
  let acted ← member.acting operator.epoch
  Stop.must (provePolicyApproval system acted.1 member.agora operator.epoch acted.2
    subject.asBytes.toList)

-- A host takes what the network hands it: a refusal leaves it as it was, and it does not outlive
-- a panic.
def take (host : Option (Member depth)) (envelope : Envelope) :
    Except Stop Unit × Option (Member depth) :=
  match host with
  | none => (.error .panicked, none)
  | some member =>
      match member.receive envelope with
      | .ok equipped => (.ok (), some equipped)
      | .error (.refused refusal) => (.error (.refused refusal), some member)
      | .error .panicked => (.error .panicked, none)

end Member

end Nymora.Protocol
