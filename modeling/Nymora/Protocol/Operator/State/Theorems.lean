import Nymora.Lib.Method
import Nymora.Protocol.Operator.Log.Theorems
import Nymora.Protocol.Operator.State

namespace Nymora.Protocol.Operator

open Nymora.Core

-- What the log gains when an epoch begins: its class roots in class order, then both set roots.
def Snapshot.published (snapshot : Snapshot) (epoch : Epoch) : List LogEntry :=
  (snapshot.classRoots.toList.map fun named => .ClassRoot epoch named.1 named.2) ++
    [.ExclusionRoots epoch snapshot.revocation snapshot.spend]

end Nymora.Protocol.Operator

namespace Nymora.Protocol.Operator.AgoraState

open Nymora.Core
open Nymora.Crypto
open Nymora.Accumulator
open Nymora.Proofs
open Std (ExtTreeMap ExtTreeSet)

variable {depth : Nat}

-- The roots of the trees and sets as they stand.
def rootsNow (state : AgoraState depth) : Snapshot where
  classRoots := state.classes.map fun _ entry => entry.tree.root
  revocation := state.revocations.root
  spend := state.spends.root

-- Roots are served from the epoch's snapshot, for the classes it names.
theorem rootsIn_eq_ok {state : AgoraState depth} {epoch : Epoch} {policyClass : PolicyClass}
    {roots : EpochRoots} :
    state.rootsIn epoch policyClass = .ok roots ↔
      ∃ (snapshot : Snapshot) (root : Root), state.history[epoch.get]? = some snapshot ∧
        snapshot.classRoots[policyClass]? = some root ∧
        roots = ⟨root, snapshot.revocation, snapshot.spend⟩ := by
  simp only [rootsIn, Method.except_bind_eq_ok, Method.except_elim_eq_ok,
    Method.except_pure_eq_ok, exists_and_left]

-- A class holding nothing but the founder's landings.
structure Founded (founder : Commitment) (landings : Nat) (entry : ClassState depth) : Prop where
  threshold : entry.policy.admissionThreshold ≠ 0
  occupied : entry.occupied = landings
  leaves : ∀ index < landings, entry.tree.leaves[positionOf index]? = some founder
  positions : ∀ leaf ∈ entry.positions, leaf = founder

-- Every class holds the founder's landings so far.
def FoundedBy (founder : Commitment) (landings : List PolicyClass)
    (classes : ExtTreeMap PolicyClass (ClassState depth)) : Prop :=
  ∀ (policyClass : PolicyClass) (entry : ClassState depth),
    classes[policyClass]? = some entry → Founded founder (landings.count policyClass) entry

-- The state an accepted founding gives.
structure Fresh (founding : Founding) (created : AgoraState depth) : Prop where
  agora : created.agora = founding.agora
  epoch : created.epoch = founding.genesis
  governanceQuorum : created.governanceQuorum = 1
  founded : FoundedBy founding.founder founding.founderClasses created.classes
  revocations : created.revocations = .new
  spends : created.spends = .new
  staged : created.staged = {}
  pending : created.pending = ∅
  sessions : created.sessions = ∅
  proposals : created.proposals = ∅
  challenges : created.challenges = ∅
  history : created.history =
    (∅ : ExtTreeMap Nat Snapshot).insert founding.genesis.get created.rootsNow
  dissolved : created.dissolved = false
  inboxes : created.inboxes = (∅ : ExtTreeMap Commitment InboxRecord).insert founding.founder
    ⟨founding.founderInbox, founding.genesis⟩
  stagedInboxes : created.stagedInboxes = ∅
  revokedLeaves : created.revokedLeaves = ∅
  inboxHorizon : created.inboxHorizon = DEFAULT_INBOX_HORIZON

theorem founded_new {founder : Commitment} {policy : ClassPolicy}
    (hthreshold : policy.admissionThreshold ≠ 0) :
    Founded founder 0 (ClassState.new policy : ClassState depth) where
  threshold := hthreshold
  occupied := rfl
  leaves := by simp
  positions := by simp [ClassState.new]

theorem Founded.land {founder : Commitment} {landings position : Nat}
    {entry landed : ClassState depth} (hfounded : Founded founder landings entry)
    (hland : entry.land founder = some (position, landed)) :
    Founded founder (landings + 1) landed where
  threshold := by
    rw [(ClassState.land_eq_some hland).2.1]
    exact hfounded.threshold
  occupied := by
    rw [(ClassState.land_eq_some hland).2.2.2.1, hfounded.occupied]
  leaves := by
    intro index hindex
    obtain ⟨leaf, hleaf, hslot⟩ := landed.known index (by
      rw [(ClassState.land_eq_some hland).2.2.2.1, hfounded.occupied]
      exact hindex)
    rw [(ClassState.land_eq_some hland).2.2.2.2.1, ExtTreeMap.mem_insert,
      Std.compare_eq_iff_eq] at hleaf
    rw [hslot]
    rcases hleaf with heq | hearlier
    · rw [heq]
    · rw [hfounded.positions leaf hearlier]
  positions := by
    intro leaf hleaf
    rw [(ClassState.land_eq_some hland).2.2.2.2.1, ExtTreeMap.mem_insert,
      Std.compare_eq_iff_eq] at hleaf
    rcases hleaf with heq | hearlier
    · exact heq.symm
    · exact hfounded.positions leaf hearlier

-- A configured class came with one of the policies inserted.
private theorem mem_of_foldl_insert {inserted : List (PolicyClass × ClassPolicy)}
    {classes : ExtTreeMap PolicyClass (ClassState depth)} {policyClass : PolicyClass}
    {entry : ClassState depth}
    (hentry : (inserted.foldl (fun classes named =>
      classes.insert named.1 (ClassState.new named.2)) classes)[policyClass]? = some entry) :
    (∃ policy, (policyClass, policy) ∈ inserted ∧ entry = .new policy) ∨
      classes[policyClass]? = some entry := by
  induction inserted generalizing classes with
  | nil => exact Or.inr hentry
  | cons first inserted ih =>
      rcases ih hentry with ⟨policy, hpolicy, rfl⟩ | hearlier
      · exact Or.inl ⟨policy, List.mem_cons_of_mem _ hpolicy, rfl⟩
      · simp only [ExtTreeMap.getElem?_insert, Std.compare_eq_iff_eq] at hearlier
        by_cases heq : first.1 = policyClass
        · rw [if_pos heq, Option.some_inj] at hearlier
          refine Or.inl ⟨first.2, ?_, hearlier.symm⟩
          rw [← heq]
          exact List.mem_cons_self
        · rw [if_neg heq] at hearlier
          exact Or.inr hearlier

variable [Primitives]

-- A snapshot publishes the roots it records.
theorem snapshot_log (state : AgoraState depth) : state.snapshot.log =
    state.log.map fun log => log.publish (state.rootsNow.published state.epoch) := by
  simp only [snapshot, Snapshot.published, rootsNow, TransparencyLog.publish, List.foldl_append,
    List.foldl_map, List.foldl_cons, List.foldl_nil]

-- The state a founding opens with, short of its first snapshot.
def opening (founding : Founding) (tagSecret statementEntropy : Bytes 32)
    (logSeed : Option (Bytes 32)) (classes : ExtTreeMap PolicyClass (ClassState depth)) :
    AgoraState depth where
  agora := founding.agora
  epoch := founding.genesis
  governanceQuorum := 1
  classes := classes
  revocations := .new
  spends := .new
  staged := {}
  pending := ∅
  sessions := ∅
  proposals := ∅
  challenges := ∅
  history := ∅
  tagSecret := tagSecret
  statementSeed := .mint statementEntropy
  log := logSeed.map .new
  dissolved := false
  inboxes := (∅ : ExtTreeMap Commitment InboxRecord).insert founding.founder
    ⟨founding.founderInbox, founding.genesis⟩
  stagedInboxes := ∅
  revokedLeaves := ∅
  inboxHorizon := DEFAULT_INBOX_HORIZON

theorem opening_of_create {founding : Founding} {tagSecret statementEntropy : Bytes 32}
    {logSeed : Option (Bytes 32)} {created : AgoraState depth}
    (hcreate : create founding tagSecret statementEntropy logSeed = .ok created) :
    ∃ classes, FoundedBy founding.founder founding.founderClasses classes ∧
      (∀ policyClass ∈ founding.founderClasses, policyClass ∈ classes) ∧
      (∀ (policyClass : PolicyClass) (entry : ClassState depth),
        classes[policyClass]? = some entry → entry.version = 1) ∧
      created = (opening founding tagSecret statementEntropy logSeed classes).snapshot := by
  unfold create at hcreate
  split at hcreate
  · simp [Method.except_bind_eq_ok] at hcreate
  simp only [List.forM_eq_forM, Method.except_bind_eq_ok, Method.except_forM_eq_ok,
    Method.except_pure_eq_ok] at hcreate
  obtain ⟨_, hchecked, classes, hfold, rfl⟩ := hcreate
  have hthreshold : ∀ named ∈ founding.classes, named.2.admissionThreshold ≠ 0 := by
    intro named hnamed hzero
    have hcheck := hchecked named hnamed
    rw [if_pos hzero, Method.except_bind_eq_ok] at hcheck
    obtain ⟨_, hthrow, _⟩ := hcheck
    exact Method.except_throw_eq_ok hthrow
  obtain ⟨hfounded, hconfigured, hversions⟩ :
      FoundedBy founding.founder founding.founderClasses classes ∧
      (∀ policyClass ∈ founding.founderClasses, policyClass ∈ classes) ∧
      ∀ (policyClass : PolicyClass) (entry : ClassState depth),
        classes[policyClass]? = some entry → entry.version = 1 := by
    refine Method.except_foldlM_invariant
      (motive := fun done current => FoundedBy founding.founder done current ∧
        (∀ policyClass ∈ done, policyClass ∈ current) ∧
        ∀ (policyClass : PolicyClass) (entry : ClassState depth),
          current[policyClass]? = some entry → entry.version = 1) hfold ⟨?_, by simp, ?_⟩ ?_
    · intro policyClass entry hentry
      rcases mem_of_foldl_insert hentry with ⟨policy, hpolicy, rfl⟩ | hnone
      · exact founded_new (hthreshold _ hpolicy)
      · simp at hnone
    · intro policyClass entry hentry
      rcases mem_of_foldl_insert hentry with ⟨policy, _, rfl⟩ | hnone
      · rfl
      · simp at hnone
    · rintro done landing current next hstep ⟨hcurrent, hconfigured, hversions⟩
      simp only [Method.except_bind_eq_ok, Method.except_elim_eq_ok,
        Method.except_pure_eq_ok] at hstep
      obtain ⟨before, hbefore, ⟨position, landed⟩, hland, rfl⟩ := hstep
      refine ⟨?_, ?_, ?_⟩
      · intro policyClass entry hentry
        simp only [ExtTreeMap.getElem?_insert, Std.compare_eq_iff_eq] at hentry
        by_cases heq : landing = policyClass
        · subst heq
          rw [if_pos rfl, Option.some_inj] at hentry
          rw [← hentry, List.count_append, List.count_singleton_self]
          exact (hcurrent landing before hbefore).land hland
        · rw [if_neg heq] at hentry
          rw [List.count_append, List.count_singleton, beq_false_of_ne heq]
          exact hcurrent policyClass entry hentry
      · intro policyClass hmem
        rw [ExtTreeMap.mem_insert, Std.compare_eq_iff_eq]
        rcases List.mem_append.1 hmem with hearlier | hlast
        · exact Or.inr (hconfigured policyClass hearlier)
        · exact Or.inl (List.mem_singleton.1 hlast).symm
      · intro policyClass entry hentry
        simp only [ExtTreeMap.getElem?_insert, Std.compare_eq_iff_eq] at hentry
        by_cases heq : landing = policyClass
        · rw [if_pos heq, Option.some_inj] at hentry
          rw [← hentry, (ClassState.land_eq_some hland).2.2.1]
          exact hversions landing before hbefore
        · rw [if_neg heq] at hentry
          exact hversions policyClass entry hentry
  exact ⟨classes, hfounded, hconfigured, hversions, rfl⟩

theorem fresh_of_create {founding : Founding} {tagSecret statementEntropy : Bytes 32}
    {logSeed : Option (Bytes 32)} {created : AgoraState depth}
    (hcreate : create founding tagSecret statementEntropy logSeed = .ok created) :
    Fresh founding created := by
  obtain ⟨classes, hfounded, _, _, rfl⟩ := opening_of_create hcreate
  exact {
    agora := rfl
    epoch := rfl
    governanceQuorum := rfl
    founded := hfounded
    revocations := rfl
    spends := rfl
    staged := rfl
    pending := rfl
    sessions := rfl
    proposals := rfl
    challenges := rfl
    history := rfl
    dissolved := rfl
    inboxes := rfl
    stagedInboxes := rfl
    revokedLeaves := rfl
    inboxHorizon := rfl }

end Nymora.Protocol.Operator.AgoraState
