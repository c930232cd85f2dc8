import Nymora.Protocol.Operator.Boundary

namespace Nymora.Protocol.Operator

open Nymora.Core
open Nymora.Crypto
open Nymora.Circuits
open Nymora.Proofs
open Method

-- What executing a decision did.
inductive Executed
  | Policy (version : UInt64)
  | Revocation (envelope : Envelope)
  | Dissolved
  | InboxHorizon (boundaries : UInt64)
deriving DecidableEq

namespace AgoraState

variable {depth : Nat} [Primitives]

-- What a proposal must satisfy before it opens, from the caller's own input.
def checkDecision : Decision → EStateM ProtocolError (AgoraState depth) PUnit
  | .Policy policyClass admissionThreshold governanceQuorum => do
      let _ ← translating Rejection.into (classEntry policyClass)
      ensure (¬ (admissionThreshold = 0 ∨ governanceQuorum = 0)) .Malformed
  | .InboxHorizon boundaries => ensure (¬ boundaries < MIN_INBOX_HORIZON) .Malformed
  | .Revocation _ => pure ()
  | .Dissolution => pure ()

-- Raises a quorum decision under its derived subject identifier.
def propose (decision : Decision) (approvingClass : PolicyClass) (nonceEntropy : Bytes 32) :
    EStateM ProtocolError (AgoraState depth) SubjectId := do
  checkLive
  let _ ← translating Rejection.into (classEntry approvingClass)
  checkDecision decision
  let nonce := nonceEntropy
  let state ← get
  let subject := subjectId state.agora state.epoch approvingClass decision nonce
  let raised : Proposal := {
    decision, approvingClass, opened := state.epoch, nonce, approvals := ∅ }
  set { state with proposals := state.proposals.insert subject raised }
  return subject

-- Records one approval.
def approve (system : ProofSystem depth) (subject : SubjectId) (proof : system.Proof)
    (nullifier : Nullifier) : EStateM ProtocolError (AgoraState depth) Recorded := do
  checkLive
  translating Rejection.into do
    let state ← get
    let proposal ← expect state.proposals[subject]? (.because .EpochOutOfRange)
    let roots ← expectOk (state.rootsIn state.epoch proposal.approvingClass)
    ensure (verifyPolicyApproval system proof state.agora state.epoch roots
      subject.asBytes.toList nullifier) (.because .ProofInvalid)
    ensure (nullifier ∉ proposal.approvals) (.because .DuplicateNullifier)
    let counted := { proposal with approvals := proposal.approvals.insert nullifier }
    set { state with proposals := state.proposals.insert subject counted }
  return .mk

-- Activates a policy change: the class's arithmetic, its version, the quorum, the log.
def activate (policyClass : PolicyClass) (admissionThreshold governanceQuorum : UInt32) :
    EStateM ProtocolError (AgoraState depth) Executed := do
  let state ← get
  let entry ← expect state.classes[policyClass]? ProtocolError.Rejected
  let version := entry.version + 1
  let changed := { entry with policy := { entry.policy with admissionThreshold }, version }
  modify fun state => { state with
    classes := state.classes.insert policyClass changed
    governanceQuorum
    log := state.log.map fun log => log.append (.PolicyChanged state.epoch policyClass version) }
  return .Policy version

-- Executes a decision whose quorum is met.
def execute (subject : SubjectId) : EStateM ProtocolError (AgoraState depth) Executed := do
  checkLive
  let state ← get
  let proposal ← expect state.proposals[subject]? ProtocolError.Rejected
  ensure (state.governanceQuorum.toNat ≤ proposal.approvals.size) ProtocolError.Rejected
  modify fun state => { state with proposals := state.proposals.erase subject }
  match proposal.decision with
  | .Policy policyClass admissionThreshold governanceQuorum =>
      activate policyClass admissionThreshold governanceQuorum
  | .Revocation leaf =>
      modify fun state => { state with staged := { state.staged with
        revocations := state.staged.revocations ++ [leaf] } }
      let envelope ← advanceEpoch
      return .Revocation envelope
  | .Dissolution =>
      modify dissolve
      return .Dissolved
  | .InboxHorizon boundaries =>
      modify fun state => { state with inboxHorizon := boundaries }
      return .InboxHorizon boundaries

end AgoraState

end Nymora.Protocol.Operator
