import Nymora.Lib.Runs
import Nymora.Protocol.Operator.Access
import Nymora.Protocol.Operator.Inbox
import Nymora.Protocol.Operator.Migrate
import Nymora.Protocol.Operator.Quorum

namespace Nymora.Protocol.Operator

open Nymora.Core
open Nymora.Crypto
open Nymora.Circuits

-- The calls a host can make on an operator state, with their arguments.
inductive Call {depth : Nat} (system : ProofSystem depth)
  | credentialsInit (commitment : Commitment) (inbox : InboxPublicKey)
  | startVouch (candidate : Commitment) (target : PolicyClass) (idEntropy : Bytes 32)
  | vouchAttest (session : SessionId) (proof : system.Proof) (nullifier : Nullifier)
  | vouchFinalize (session : SessionId)
  | migrate (policyClass : PolicyClass) (proof : system.MigrationProof) (spend : Nullifier)
      (successor : Commitment) (inbox : InboxPublicKey)
  | inboxCertificate (leaf : Commitment) (inbox : InboxPublicKey) (action : InboxAction)
      (proof : system.InboxProof)
  | propose (decision : Decision) (approvingClass : PolicyClass) (nonceEntropy : Bytes 32)
  | approve (subject : SubjectId) (proof : system.Proof) (nullifier : Nullifier)
  | execute (subject : SubjectId)
  | issueChallenge (entropy : Bytes 32)
  | redeemAccess (policyClass : PolicyClass) (proof : system.Proof) (challenge : Challenge)
  | advanceEpoch
  | currentEnvelope

-- What a call answers.
inductive Reply
  | recorded
  | session (id : SessionId)
  | admission (admission : Admission)
  | subject (subject : SubjectId)
  | executed (executed : Executed)
  | challenge (challenge : Challenge)
  | access (access : MemberAccess)
  | envelope (envelope : Envelope)
deriving DecidableEq

abbrev Outcome : Type := Except ProtocolError Reply

namespace AgoraState

variable {depth : Nat} [Primitives] (system : ProofSystem depth)

-- One call as a method that answers with a reply.
def perform : Call system → EStateM ProtocolError (AgoraState depth) Reply
  | .credentialsInit commitment inbox => do
      let _ ← credentialsInit commitment inbox
      return .recorded
  | .startVouch candidate target idEntropy => do
      let id ← startVouch candidate target idEntropy
      return .session id
  | .vouchAttest session proof nullifier => do
      let _ ← vouchAttest system session proof nullifier
      return .recorded
  | .vouchFinalize session => do
      let admission ← vouchFinalize session
      return .admission admission
  | .migrate policyClass proof spend successor inbox => do
      let admission ← migrate system policyClass proof spend successor inbox
      return .admission admission
  | .inboxCertificate leaf inbox action proof => do
      let _ ← inboxCertificate system leaf inbox action proof
      return .recorded
  | .propose decision approvingClass nonceEntropy => do
      let subject ← propose decision approvingClass nonceEntropy
      return .subject subject
  | .approve subject proof nullifier => do
      let _ ← approve system subject proof nullifier
      return .recorded
  | .execute subject => do
      let executed ← execute subject
      return .executed executed
  | .issueChallenge entropy => do
      let challenge ← issueChallenge entropy
      return .challenge challenge
  | .redeemAccess policyClass proof challenge => do
      let access ← redeemAccess system policyClass proof challenge
      return .access access
  | .advanceEpoch => do
      let envelope ← advanceEpoch
      return .envelope envelope
  | .currentEnvelope => do
      let envelope ← currentEnvelope
      return .envelope envelope

-- The machine a host drives: every call answers, and a refusal keeps what was written.
def step (state : AgoraState depth) (call : Call system) : Outcome × AgoraState depth :=
  match perform system call state with
  | .ok reply after => (.ok reply, after)
  | .error refusal after => (.error refusal, after)

-- The states some founding and some calls lead to.
def Reachable (state : AgoraState depth) : Prop :=
  ∃ founding tagSecret statementEntropy logSeed created calls,
    create founding tagSecret statementEntropy logSeed = .ok created ∧
      state = Runs.final (step system) created calls

end AgoraState

-- The envelope a reply hands out, if it hands one out.
def Reply.envelope? : Reply → Option Envelope
  | .envelope delivered => some delivered
  | .executed (.Revocation delivered) => some delivered
  | _ => none

end Nymora.Protocol.Operator
