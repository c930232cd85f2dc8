import Nymora.Protocol.Operator.Boundary

namespace Nymora.Protocol.Operator

open Nymora.Core
open Nymora.Crypto
open Nymora.Circuits
open Nymora.Proofs
open Method

-- A single-use verification-access challenge.
structure Challenge where
  asBytes : Bytes 32
deriving DecidableEq

-- A member's proven standing, for one epoch.
structure MemberAccess where
  epoch : Epoch
deriving DecidableEq

namespace AgoraState

variable {depth : Nat}

def issueChallenge (entropy : Bytes 32) : EStateM ProtocolError (AgoraState depth) Challenge := do
  checkLive
  modify fun state => { state with challenges := state.challenges.insert entropy }
  return ⟨entropy⟩

-- Redeems a challenge with an access proof. The challenge is consumed on presentation.
def redeemAccess (system : ProofSystem depth) (policyClass : PolicyClass) (proof : system.Proof)
    (challenge : Challenge) : EStateM ProtocolError (AgoraState depth) MemberAccess := do
  checkLive
  translating Rejection.into do
    let state ← get
    ensure (challenge.asBytes ∈ state.challenges) (.because .EpochOutOfRange)
    modify fun state => { state with challenges := state.challenges.erase challenge.asBytes }
    let roots ← expectOk (state.rootsIn state.epoch policyClass)
    ensure (verifyVerificationAccess system proof state.agora state.epoch roots
      challenge.asBytes.toList) (.because .ProofInvalid)
    return ⟨state.epoch⟩

-- The source's `admit`: an access capability is for the epoch that is still current.
def admitAccess (access : MemberAccess) : EStateM Rejection (AgoraState depth) Unit := do
  live
  let state ← get
  ensure (access.epoch = state.epoch) (.because .EpochOutOfRange)

-- The roots in force at a past or current epoch.
def rootsAt (access : MemberAccess) (policyClass : PolicyClass) (epoch : Epoch) :
    EStateM ProtocolError (AgoraState depth) EpochRoots :=
  translating Rejection.into do
    admitAccess access
    let state ← get
    expectOk (state.rootsIn epoch policyClass)

-- The whole revocation set.
def revocationKeys (access : MemberAccess) :
    EStateM ProtocolError (AgoraState depth) (List (Bytes 32)) :=
  translating Rejection.into do
    admitAccess access
    let state ← get
    return state.revocations.keys

-- The whole migration-spend set.
def spendKeys (access : MemberAccess) :
    EStateM ProtocolError (AgoraState depth) (List (Bytes 32)) :=
  translating Rejection.into do
    admitAccess access
    let state ← get
    return state.spends.keys

-- The consolidated verification round-trip.
def verifyAttestation (system : ProofSystem depth) (access : MemberAccess)
    (policyClass : PolicyClass) (epoch : Epoch) (proof : system.Proof) (message : MessageHash)
    (nullifier : Nullifier) : EStateM ProtocolError (AgoraState depth) Bool :=
  translating Rejection.into do
    admitAccess access
    let state ← get
    let roots ← expectOk (state.rootsIn epoch policyClass)
    return verifyAuthorship system proof state.agora epoch roots message nullifier

variable [Primitives]

-- A past or current epoch's tag key.
def tagKeyAt (access : MemberAccess) (epoch : Epoch) :
    EStateM ProtocolError (AgoraState depth) TagKey :=
  translating Rejection.into do
    admitAccess access
    let state ← get
    ensure (¬ epoch.get > state.epoch.get) (.because .EpochOutOfRange)
    return deriveTagKey state.tagSecret.toList state.agora epoch

end AgoraState

end Nymora.Protocol.Operator
