import Nymora.Protocol.Operator.Vouch

namespace Nymora.Protocol.Operator.AgoraState

open Nymora.Core
open Nymora.Crypto
open Nymora.Accumulator
open Nymora.Circuits
open Nymora.Proofs
open Method

variable {depth : Nat}

-- Accepts a planned migration: verifies the proof, checks the spend fresh, stages the
-- successor, the spend and the successor's inbox key.
def migrate (system : ProofSystem depth) (policyClass : PolicyClass)
    (proof : system.MigrationProof) (spend : Nullifier) (successor : Commitment)
    (inbox : InboxPublicKey) : EStateM ProtocolError (AgoraState depth) Admission := do
  checkLive
  translating Rejection.into do
    let state ← get
    -- The landed set is compared by truncation, the staged list by the raw nullifier.
    let truncated := truncateKey spend.asBytes
    let alreadySpent := truncated ∈ state.spends.keys ∨ spend ∈ state.staged.spends
    ensure (¬ alreadySpent) (.because .DuplicateNullifier)
    let entry ← classEntry policyClass
    ensure (successor ∉ entry.positions) (.because .PolicyDenied)
    let roots ← expectOk (state.rootsIn state.epoch policyClass)
    ensure (verifyMigration system proof state.agora roots.policyClass roots.revocation spend
      successor) (.because .ProofInvalid)
    let admission ← stageAdmission policyClass successor
    modify fun state => { state with staged := { state.staged with
      spends := state.staged.spends ++ [spend] } }
    modify fun state => { state with stagedInboxes := state.stagedInboxes.insert successor inbox }
    return admission

end Nymora.Protocol.Operator.AgoraState
