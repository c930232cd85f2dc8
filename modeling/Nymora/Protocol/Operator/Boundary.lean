import Nymora.Lib.Method
import Nymora.Protocol.Operator.Envelope

namespace Nymora.Protocol.Operator.AgoraState

open Nymora.Core
open Nymora.Crypto
open Nymora.Accumulator
open Method

variable {depth : Nat}

-- Refuses everything on a dissolved agora.
def live : EStateM Rejection (AgoraState depth) Unit := do
  let state ← get
  ensure (state.dissolved = false) (.because .Dissolved)

-- `live()?` where the caller returns a `ProtocolError`.
def checkLive : EStateM ProtocolError (AgoraState depth) Unit := translating Rejection.into live

-- The class's bookkeeping, or a refusal.
def classEntry (policyClass : PolicyClass) :
    EStateM Rejection (AgoraState depth) (ClassState depth) := do
  let state ← get
  expect state.classes[policyClass]? (.because .PolicyDenied)

-- Registers a landing leaf's staged inbox key, if one was staged.
def registerStaged (state : AgoraState depth) (since : Epoch) (leaf : Commitment) :
    AgoraState depth :=
  match state.stagedInboxes[leaf]? with
  | some key => { state with
      stagedInboxes := state.stagedInboxes.erase leaf
      inboxes := state.inboxes.insert leaf { key, since } }
  | none => state

-- One staged admission lands.
def landStaged (next : Epoch) (admission : PolicyClass × Commitment) :
    EStateM ProtocolError (AgoraState depth) PUnit := do
  let state ← get
  let entry ← expect state.classes[admission.1]? .Unavailable
  let (_, landed) ← expect (entry.land admission.2) .Unavailable
  modify fun state => { state with classes := state.classes.insert admission.1 landed }
  modify fun state => state.registerStaged next admission.2

def landSpend (state : AgoraState depth) (nullifier : Nullifier) : AgoraState depth :=
  { state with spends := state.spends.insert nullifier.asBytes }

-- The public set holds the hashed entry; the raw leaf is the operator's own record.
def landRevocation (state : AgoraState depth) (leaf : Commitment) : AgoraState depth :=
  { state with
    revocations := state.revocations.insert (revocationKey leaf)
    revokedLeaves := state.revokedLeaves.insert leaf }

-- The epoch turns: everything open expires.
def turn (state : AgoraState depth) (next : Epoch) : AgoraState depth :=
  { state with epoch := next, sessions := ∅, proposals := ∅, challenges := ∅ }

variable [Primitives]

-- The current epoch's envelope, for host re-delivery to members.
def currentEnvelope : EStateM ProtocolError (AgoraState depth) Envelope := do
  checkLive
  let state ← get
  return state.envelopeNow

-- The current epoch's shared body, owned.
def currentBody : EStateM ProtocolError (AgoraState depth) Body := do
  checkLive
  let state ← get
  return state.bodyNow

-- Staged mutations land, roots snapshot, everything open expires, and the boundary envelope
-- is produced.
def advanceEpoch : EStateM ProtocolError (AgoraState depth) Envelope := do
  checkLive
  let state ← get
  let staged := state.staged
  modify fun state => { state with staged := {} }
  let next ← expect state.epoch.next .Unavailable
  forM staged.admissions (landStaged next)
  modify fun state => staged.spends.foldl landSpend state
  modify fun state => staged.revocations.foldl landRevocation state
  modify fun state => (state.turn next).snapshot
  let state ← get
  return state.envelopeNow

end Nymora.Protocol.Operator.AgoraState
