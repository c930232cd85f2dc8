import Nymora.Crypto.LiveAuth
import Nymora.Lib.Method
import Nymora.Protocol.Credential

namespace Nymora.Protocol.LiveAuth

open Nymora.Core
open Nymora.Crypto
open Nymora.Crypto.LiveAuth (NONCE_LEN)
open Credential (FreshEntropy)
open Method

-- This participant's secret contribution to one round.
structure Contribution where
  new ::
  nonce : FreshEntropy
  blinding : FreshEntropy

-- One participant's opening.
structure Reveal where
  nonce : Bytes NONCE_LEN
  blinding : Bytes NONCE_LEN
deriving DecidableEq

-- A session whose roster of commitments is fixed.
structure Locked where
  contribution : Contribution
  roster : List SessionCommitment
  position : Nat

structure Session where
  context : SessionContext
deriving DecidableEq

variable [Primitives]

def Contribution.commitment (contribution : Contribution) : SessionCommitment :=
  Crypto.LiveAuth.commitment contribution.nonce contribution.blinding

def Contribution.lock (contribution : Contribution) (roster : List SessionCommitment) :
    Except ProtocolError Locked :=
  if roster.length < 2 then
    .error .Rejected
  else if roster.zipIdx.any fun (commitment, index) => (roster.take index).contains commitment then
    .error .Rejected
  else
    match roster.idxOf? contribution.commitment with
    | none => .error .Rejected
    | some position => .ok ⟨contribution, roster, position⟩

-- One turn of the loop over the reveals: the opening, the own slot, and the nonce written out.
def Locked.accept (locked : Locked) :
    (Reveal × SessionCommitment) × Nat → EStateM ProtocolError (List (Bytes NONCE_LEN)) Unit
  | ((reveal, committed), index) => do
      ensure (Crypto.LiveAuth.commitment reveal.nonce reveal.blinding = committed) .Rejected
      ensure (index = locked.position → reveal.nonce = locked.contribution.nonce) .Rejected
      modify fun scratch => scratch.set index reveal.nonce

-- The state is the caller's scratch buffer; only its head is used, and sorted in place.
def Locked.finish (locked : Locked) (reveals : List Reveal) (channelMetadata : List UInt8) :
    EStateM ProtocolError (List (Bytes NONCE_LEN)) Session := do
  ensure (reveals.length = locked.roster.length) .Rejected
  let scratch ← get
  ensure (reveals.length ≤ scratch.length) .Malformed
  (reveals.zip locked.roster).zipIdx.forM locked.accept
  let scratch ← get
  let (context, nonces) :=
    Crypto.LiveAuth.context (scratch.take reveals.length) channelMetadata
  set (nonces ++ scratch.drop reveals.length)
  return ⟨context⟩

end Nymora.Protocol.LiveAuth
