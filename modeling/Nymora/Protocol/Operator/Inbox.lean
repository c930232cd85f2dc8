import Nymora.Protocol.Operator.Boundary

namespace Nymora.Protocol.Operator.AgoraState

open Nymora.Core
open Nymora.Crypto
open Nymora.Circuits
open Nymora.Proofs
open Method

variable {depth : Nat}

-- Applies a root-signed inbox instruction under its proof.
def inboxCertificate (system : ProofSystem depth) (leaf : Commitment) (inbox : InboxPublicKey)
    (action : InboxAction) (proof : system.InboxProof) :
    EStateM ProtocolError (AgoraState depth) Recorded := do
  checkLive
  translating Rejection.into do
    let state ← get
    ensure (verifyInbox system proof state.agora leaf inbox action) (.because .ProofInvalid)
    match action with
    | .Retire =>
        let registered ← expect state.inboxes[leaf]? (.because .UnknownCredential)
        ensure (registered.key = inbox) (.because .UnknownCredential)
        set { state with inboxes := state.inboxes.erase leaf }
    | .Renew =>
        let landed := state.classes.toList.any fun entry => decide (leaf ∈ entry.2.positions)
        ensure (landed = true ∧ leaf ∉ state.revokedLeaves) (.because .UnknownCredential)
        let record : InboxRecord := { key := inbox, since := state.epoch }
        set { state with inboxes := state.inboxes.insert leaf record }
  return .mk

end Nymora.Protocol.Operator.AgoraState
