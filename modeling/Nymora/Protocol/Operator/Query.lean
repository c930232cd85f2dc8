import Nymora.Protocol.Operator.Access

namespace Nymora.Protocol.Operator

open Nymora.Core
open Nymora.Crypto
open Nymora.Circuits

-- An open proposal as members recompute and weigh it.
structure ProposalView where
  decision : Decision
  approvingClass : PolicyClass
  opened : Epoch
  nonce : Bytes 32
deriving DecidableEq

-- The reads of an operator state: none of them writes.
inductive Query {depth : Nat} (system : ProofSystem depth)
  | currentEpoch
  | statementKey
  | currentEnvelope
  | currentBody
  | fetchKeyNow
  | inboxHorizon
  | transparencyLog
  | proposal (subject : SubjectId)
  | rootsAt (access : MemberAccess) (policyClass : PolicyClass) (epoch : Epoch)
  | tagKeyAt (access : MemberAccess) (epoch : Epoch)
  | revocationKeys (access : MemberAccess)
  | spendKeys (access : MemberAccess)
  | verifyAttestation (access : MemberAccess) (policyClass : PolicyClass) (epoch : Epoch)
      (proof : system.Proof) (message : MessageHash) (nullifier : Nullifier)

-- What a read answers.
inductive Answer
  | refused (refusal : ProtocolError)
  | epoch (epoch : Epoch)
  | statementKey (key : Bytes 32)
  | envelope (envelope : Envelope)
  | body (body : Body)
  | fetchKey (key : FetchKey)
  | boundaries (boundaries : UInt64)
  | log (log : Option TransparencyLog)
  | proposal (view : Option ProposalView)
  | roots (roots : Proofs.EpochRoots)
  | tagKey (key : TagKey)
  | keys (keys : List (Bytes 32))
  | verdict (accepted : Bool)

-- Whether an answer carries a key, a tag, a signature or an envelope that the operator derives
-- from its tag secret or its statement seed. The log is the published artifact, signed with its
-- own key entry by entry.
def Answer.discloses : Answer → Bool
  | .statementKey _ | .envelope _ | .body _ | .fetchKey _ | .tagKey _ => true
  | _ => false

namespace AgoraState

variable {depth : Nat}

def proposal (state : AgoraState depth) (subject : SubjectId) : Option ProposalView := do
  let proposal ← state.proposals[subject]?
  return {
    decision := proposal.decision
    approvingClass := proposal.approvingClass
    opened := proposal.opened
    nonce := proposal.nonce }

-- The answer of a method that may refuse.
def answered {result : Type} (reply : result → Answer)
    (method : EStateM ProtocolError (AgoraState depth) result) (state : AgoraState depth) :
    Answer :=
  match method state with
  | .ok value _ => reply value
  | .error refusal _ => .refused refusal

def ask [Primitives] (system : ProofSystem depth) (state : AgoraState depth) :
    Query system → Answer
  | .currentEpoch => .epoch state.epoch
  | .statementKey => .statementKey state.statementKey
  | .currentEnvelope => answered .envelope currentEnvelope state
  | .currentBody => answered .body currentBody state
  | .fetchKeyNow => .fetchKey state.fetchKeyNow
  | .inboxHorizon => .boundaries state.inboxHorizon
  | .transparencyLog => .log state.log
  | .proposal subject => .proposal (state.proposal subject)
  | .rootsAt access policyClass epoch => answered .roots (rootsAt access policyClass epoch) state
  | .tagKeyAt access epoch => answered .tagKey (tagKeyAt access epoch) state
  | .revocationKeys access => answered .keys (revocationKeys access) state
  | .spendKeys access => answered .keys (spendKeys access) state
  | .verifyAttestation access policyClass epoch proof message nullifier =>
      answered .verdict
        (verifyAttestation system access policyClass epoch proof message nullifier) state

end AgoraState

end Nymora.Protocol.Operator
