import Nymora.Protocol.Operator.Boundary

namespace Nymora.Protocol.Operator.AgoraState

open Nymora.Core
open Nymora.Crypto
open Nymora.Circuits
open Nymora.Proofs
open Method

variable {depth : Nat}

-- Accepts a candidate's commitment and inbox key as pending admission.
def credentialsInit (commitment : Commitment) (inbox : InboxPublicKey) :
    EStateM ProtocolError (AgoraState depth) Recorded := do
  checkLive
  modify fun state => { state with pending := state.pending.insert commitment }
  modify fun state => { state with stagedInboxes := state.stagedInboxes.insert commitment inbox }
  return .mk

-- Opens a vouch session for a pending candidate.
def startVouch (candidate : Commitment) (target : PolicyClass) (idEntropy : Bytes 32) :
    EStateM ProtocolError (AgoraState depth) SessionId := do
  checkLive
  translating Rejection.into do
    let state ← get
    ensure (candidate ∈ state.pending) (.because .UnknownCredential)
    let entry ← classEntry target
    ensure (candidate ∉ entry.positions) (.because .PolicyDenied)
    ensure (state.remainingCapacity target ≠ 0) .unexplained
  let id : SessionId := .fromBytes idEntropy
  let opened : VouchSession := { candidate, target, nullifiers := ∅ }
  modify fun state => { state with sessions := state.sessions.insert id opened }
  return id

-- Records one attestation into a session.
def vouchAttest (system : ProofSystem depth) (session : SessionId) (proof : system.Proof)
    (nullifier : Nullifier) : EStateM ProtocolError (AgoraState depth) Recorded := do
  checkLive
  translating Rejection.into do
    let state ← get
    let opened ← expect state.sessions[session]? (.because .EpochOutOfRange)
    let entry ← classEntry opened.target
    let roots ← expectOk (state.rootsIn state.epoch entry.policy.voucherClass)
    ensure (verifyVouch system proof state.agora state.epoch roots session.asBytes.toList
      nullifier) (.because .ProofInvalid)
    ensure (nullifier ∉ opened.nullifiers) (.because .DuplicateNullifier)
    let counted := { opened with nullifiers := opened.nullifiers.insert nullifier }
    set { state with sessions := state.sessions.insert session counted }
  return .mk

-- Stages a leaf for the next boundary, returning where and when it lands.
def stageAdmission (policyClass : PolicyClass) (leaf : Commitment) :
    EStateM Rejection (AgoraState depth) Admission := do
  let state ← get
  ensure (state.remainingCapacity policyClass ≠ 0) .unexplained
  let entry ← classEntry policyClass
  let duplicate := leaf ∈ entry.positions ∨ (policyClass, leaf) ∈ state.staged.admissions
  ensure (¬ duplicate) (.because .PolicyDenied)
  let stagedBefore := state.staged.admissions.countP fun admission => admission.1 = policyClass
  let position := positionOf (entry.occupied + stagedBefore)
  modify fun state => { state with staged := { state.staged with
    admissions := state.staged.admissions ++ [(policyClass, leaf)] } }
  let activeFrom ← expect state.epoch.next .unexplained
  return { activeFrom, position }

-- Closes a session and discloses the outcome.
def vouchFinalize (session : SessionId) : EStateM ProtocolError (AgoraState depth) Admission := do
  checkLive
  translating Rejection.into do
    let state ← get
    let opened ← expect state.sessions[session]? (.because .EpochOutOfRange)
    modify fun state => { state with sessions := state.sessions.erase session }
    let entry ← classEntry opened.target
    let threshold := entry.policy.admissionThreshold
    ensure (threshold.toNat ≤ opened.nullifiers.size) (.because .ThresholdNotMet)
    modify fun state => { state with pending := state.pending.erase opened.candidate }
    stageAdmission opened.target opened.candidate

end Nymora.Protocol.Operator.AgoraState
