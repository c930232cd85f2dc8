import Mathlib.Data.List.Sort
import Nymora.Accumulator.Exclusion
import Nymora.Crypto.Credential
import Nymora.Proofs.Action
import Nymora.Protocol.Bulletin
import Nymora.Protocol.Decision
import Nymora.Protocol.Operator.Class
import Nymora.Protocol.Operator.Log

namespace Nymora.Protocol.Operator

open Nymora.Core
open Nymora.Crypto
open Nymora.Accumulator
open Nymora.Proofs
open Std (ExtTreeMap ExtTreeSet)

-- A zero-information acknowledgement: it has no fields.
inductive Recorded
  | mk
deriving DecidableEq

-- The acknowledgement of an admission that will land at the next boundary.
structure Admission where
  activeFrom : Epoch
  position : Nat
deriving DecidableEq

abbrev SessionId : Type := Digest .SessionId

-- A credential's registered inbox key and when the registration last began.
structure InboxRecord where
  key : InboxPublicKey
  since : Epoch
deriving DecidableEq

structure VouchSession where
  candidate : Commitment
  target : PolicyClass
  nullifiers : ExtTreeSet Nullifier

-- An open quorum decision.
structure Proposal where
  decision : Decision
  approvingClass : PolicyClass
  opened : Epoch
  nonce : Bytes 32
  approvals : ExtTreeSet Nullifier

-- Mutations staged for the next boundary.
structure Staged where
  admissions : List (PolicyClass × Commitment) := []
  spends : List Nullifier := []
  revocations : List Commitment := []

-- The roots in force during one epoch.
structure Snapshot where
  classRoots : ExtTreeMap PolicyClass Root
  revocation : Root
  spend : Root

-- The immutable facts an agora is founded with.
structure Founding where
  agora : AgoraId
  genesis : Epoch
  founder : Commitment
  classes : List (PolicyClass × ClassPolicy)
  founderClasses : List PolicyClass
  founderInbox : InboxPublicKey

-- One agora's operator state. The proof system it verifies with is a parameter of the
-- methods instead of a field.
structure AgoraState (depth : Nat) where
  agora : AgoraId
  epoch : Epoch
  governanceQuorum : UInt32
  classes : ExtTreeMap PolicyClass (ClassState depth)
  revocations : ExclusionSet depth
  spends : ExclusionSet depth
  staged : Staged
  pending : ExtTreeSet Commitment
  sessions : ExtTreeMap SessionId VouchSession
  proposals : ExtTreeMap SubjectId Proposal
  challenges : ExtTreeSet (Bytes 32)
  history : ExtTreeMap Nat Snapshot
  tagSecret : Bytes 32
  statementSeed : Signature.SigningSeed
  log : Option TransparencyLog
  dissolved : Bool
  inboxes : ExtTreeMap Commitment InboxRecord
  stagedInboxes : ExtTreeMap Commitment InboxPublicKey
  revokedLeaves : ExtTreeSet Commitment
  inboxHorizon : UInt64

-- The default inbox horizon: a year of daily epochs.
def DEFAULT_INBOX_HORIZON : UInt64 := 365

-- The protocol floor on the horizon.
def MIN_INBOX_HORIZON : UInt64 := 7

namespace AgoraState

variable {depth : Nat}

-- How many admissions a class can still stage before exhaustion.
def remainingCapacity (state : AgoraState depth) (policyClass : PolicyClass) : Nat :=
  match state.classes[policyClass]? with
  | none => 0
  | some entry =>
      let staged := state.staged.admissions.countP fun admission => admission.1 = policyClass
      ClassState.CAPACITY depth - entry.occupied - staged

-- The roots in force at an epoch for a class, from history.
def rootsIn (state : AgoraState depth) (epoch : Epoch) (policyClass : PolicyClass) :
    Except Rejection EpochRoots := do
  let snapshot ← (state.history[epoch.get]?).elim (throw (.because .EpochOutOfRange)) pure
  let classRoot ← (snapshot.classRoots[policyClass]?).elim (throw (.because .PolicyDenied)) pure
  return { policyClass := classRoot, revocation := snapshot.revocation, spend := snapshot.spend }

-- Whether a leaf's registration is live now: registered, not revoked, inside the horizon.
def inboxLive (state : AgoraState depth) (leaf : Commitment) : Option InboxPublicKey := do
  guard (leaf ∉ state.revokedLeaves)
  let record ← state.inboxes[leaf]?
  let age := state.epoch.get - record.since.get
  guard (age < state.inboxHorizon.toNat)
  return record.key

variable [Primitives]

-- Records the current trees' roots as the epoch's fixed snapshot, and logs them.
def snapshot (state : AgoraState depth) : AgoraState depth :=
  let classRoots := state.classes.map fun _ entry => entry.tree.root
  let revocation := state.revocations.root
  let spend := state.spends.root
  let log := state.log.map fun log =>
    (classRoots.toList.foldl (fun log (policyClass, root) =>
      log.append (.ClassRoot state.epoch policyClass root)) log).append
        (.ExclusionRoots state.epoch revocation spend)
  { state with
    log
    history := state.history.insert state.epoch.get { classRoots, revocation, spend } }

-- Freezes the agora permanently.
def dissolve (state : AgoraState depth) : AgoraState depth :=
  { state with
    dissolved := true
    sessions := ∅
    proposals := ∅
    challenges := ∅
    staged := {}
    pending := ∅
    tagSecret := Bytes.zero 32
    statementSeed := .zero
    log := state.log.map fun log => log.append (.Frozen state.epoch) }

-- Creates the agora with its founder admitted.
def create (founding : Founding) (tagSecret statementEntropy : Bytes 32)
    (logSeed : Option (Bytes 32)) : Except ProtocolError (AgoraState depth) := do
  if founding.classes = [] then throw .Malformed
  let classes : ExtTreeMap PolicyClass (ClassState depth) :=
    founding.classes.foldl (fun classes (policyClass, policy) =>
      classes.insert policyClass (.new policy)) ∅
  founding.classes.forM fun (_, policy) => do
    if policy.admissionThreshold = 0 then throw .Malformed
    if policy.voucherClass ∉ classes then throw .Malformed
  let classes ← founding.founderClasses.foldlM (fun classes policyClass => do
    let entry ← (classes[policyClass]?).elim (throw ProtocolError.Malformed) pure
    let (_, landed) ← (entry.land founding.founder).elim (throw ProtocolError.Malformed) pure
    return classes.insert policyClass landed) classes
  let state : AgoraState depth := {
    agora := founding.agora
    epoch := founding.genesis
    governanceQuorum := 1
    classes
    revocations := .new
    spends := .new
    staged := {}
    pending := ∅
    sessions := ∅
    proposals := ∅
    challenges := ∅
    history := ∅
    tagSecret
    statementSeed := .mint statementEntropy
    log := logSeed.map .new
    dissolved := false
    inboxes := (∅ : ExtTreeMap Commitment InboxRecord).insert founding.founder
      { key := founding.founderInbox, since := founding.genesis }
    stagedInboxes := ∅
    revokedLeaves := ∅
    inboxHorizon := DEFAULT_INBOX_HORIZON }
  return state.snapshot

-- The operator statement key's public half.
def statementKey (state : AgoraState depth) : Bytes 32 := state.statementSeed.publicKey

end AgoraState

end Nymora.Protocol.Operator
