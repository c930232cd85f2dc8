import Nymora.Protocol.Operator.Boundary.Theorems
import Nymora.Protocol.Operator.Quorum

namespace Nymora.Protocol.Operator.AgoraState

open Nymora.Core
open Nymora.Crypto
open Nymora.Circuits
open Nymora.Proofs
open Method

variable {depth : Nat} {state after : AgoraState depth}

-- What opening a proposal asks of its decision.
def Proposable (state : AgoraState depth) : Decision → Prop
  | .Policy policyClass admissionThreshold governanceQuorum =>
      policyClass ∈ state.classes ∧ admissionThreshold ≠ 0 ∧ governanceQuorum ≠ 0
  | .InboxHorizon boundaries => MIN_INBOX_HORIZON ≤ boundaries
  | .Revocation _ => True
  | .Dissolution => True

theorem checkDecision_eq_ok {decision : Decision} {result : PUnit} :
    checkDecision decision state = .ok result after ↔ Proposable state decision ∧ after = state := by
  cases decision with
  | Policy policyClass admissionThreshold governanceQuorum =>
      simp only [checkDecision, Proposable, translating_bind_eq_ok, classEntry_eq_ok,
        ensure_eq_ok, not_or, Std.ExtTreeMap.mem_iff_isSome_getElem?, Option.isSome_iff_exists]
      constructor
      · rintro ⟨entry, _, ⟨hentry, rfl⟩, hpositive, hafter⟩
        exact ⟨⟨⟨entry, hentry⟩, hpositive⟩, hafter⟩
      · rintro ⟨⟨⟨entry, hentry⟩, hpositive⟩, hafter⟩
        exact ⟨entry, state, ⟨hentry, rfl⟩, hpositive, hafter⟩
  | InboxHorizon boundaries => simp [checkDecision, Proposable]
  | Revocation leaf => simp [checkDecision, Proposable]
  | Dissolution => simp [checkDecision, Proposable]

theorem checkDecision_bind_eq_ok {α : Type} {decision : Decision} {result : α}
    {rest : PUnit → EStateM ProtocolError (AgoraState depth) α} :
    (checkDecision decision >>= rest) state = .ok result after ↔
      Proposable state decision ∧ rest ⟨⟩ state = .ok result after := by
  rw [bind_eq_ok]
  constructor
  · rintro ⟨_, _, hcheck, hrest⟩
    obtain ⟨hproposable, rfl⟩ := checkDecision_eq_ok.1 hcheck
    exact ⟨hproposable, hrest⟩
  · rintro ⟨hproposable, hrest⟩
    exact ⟨⟨⟩, state, checkDecision_eq_ok.2 ⟨hproposable, rfl⟩, hrest⟩

theorem checkDecision_eq_error {decision : Decision} {refusal : ProtocolError}
    (herror : checkDecision decision state = .error refusal after) : after = state := by
  cases decision with
  | Policy policyClass admissionThreshold governanceQuorum =>
      simp only [checkDecision, translating_bind_eq_error, classEntry_eq_error, classEntry_eq_ok,
        ensure_eq_error] at herror
      grind
  | InboxHorizon boundaries =>
      simp only [checkDecision, ensure_eq_error] at herror
      exact herror.2.2
  | Revocation leaf => simp [checkDecision] at herror
  | Dissolution => simp [checkDecision] at herror

-- The state with a proposal written under a subject.
def withProposal (state : AgoraState depth) (subject : SubjectId) (proposal : Proposal) :
    AgoraState depth :=
  { state with proposals := state.proposals.insert subject proposal }

theorem approve_eq_ok {system : ProofSystem depth} {subject : SubjectId} {proof : system.Proof}
    {nullifier : Nullifier} {result : Recorded} :
    approve system subject proof nullifier state = .ok result after ↔
      state.dissolved = false ∧ ∃ proposal roots, state.proposals[subject]? = some proposal ∧
        state.rootsIn state.epoch proposal.approvingClass = .ok roots ∧
        verifyPolicyApproval system proof state.agora state.epoch roots subject.asBytes.toList
          nullifier ∧
        nullifier ∉ proposal.approvals ∧
        after = state.withProposal subject
          { proposal with approvals := proposal.approvals.insert nullifier } := by
  simp only [approve, checkLive_bind_eq_ok, translating_bind_eq_ok, get_bind, expect_bind_eq_ok,
    expectOk_bind_eq_ok, ensure_bind_eq_ok, set_eq_ok, pure_eq_ok, true_and]
  constructor
  · rintro ⟨hlive, _, _, ⟨proposal, hproposal, roots, hroots, hproof, hfresh, rfl⟩, hafter⟩
    exact ⟨hlive, proposal, roots, hproposal, hroots, hproof, hfresh, hafter⟩
  · rintro ⟨hlive, proposal, roots, hproposal, hroots, hproof, hfresh, hafter⟩
    exact ⟨hlive, ⟨⟩, _, ⟨proposal, hproposal, roots, hroots, hproof, hfresh, rfl⟩, hafter⟩

theorem approve_eq_error {system : ProofSystem depth} {subject : SubjectId}
    {proof : system.Proof} {nullifier : Nullifier} {refusal : ProtocolError}
    (herror : approve system subject proof nullifier state = .error refusal after) :
    after = state := by
  simp only [approve, checkLive_bind_eq_error, translating_bind_eq_error, get_bind,
    expect_bind_eq_error, expectOk_bind_eq_error, ensure_bind_eq_error, set_eq_error,
    pure_eq_error, and_false, exists_false, or_false] at herror
  grind

-- An open proposal whose quorum is met.
structure Carried (state : AgoraState depth) (subject : SubjectId) (proposal : Proposal) :
    Prop where
  live : state.dissolved = false
  raised : state.proposals[subject]? = some proposal
  quorum : state.governanceQuorum.toNat ≤ proposal.approvals.size

-- The state with a proposal consumed.
def consume (state : AgoraState depth) (subject : SubjectId) : AgoraState depth :=
  { state with proposals := state.proposals.erase subject }

def stageRevocation (state : AgoraState depth) (leaf : Commitment) : AgoraState depth :=
  { state with staged := { state.staged with
    revocations := state.staged.revocations ++ [leaf] } }

variable [Primitives]

-- A raised proposal stands open under its derived identifier, with no approval yet.
theorem propose_eq_ok {decision : Decision} {approvingClass : PolicyClass}
    {nonceEntropy : Bytes 32} {subject : SubjectId} :
    propose decision approvingClass nonceEntropy state = .ok subject after ↔
      state.dissolved = false ∧ approvingClass ∈ state.classes ∧ Proposable state decision ∧
        subject = subjectId state.agora state.epoch approvingClass decision nonceEntropy ∧
        after = state.withProposal subject
          ⟨decision, approvingClass, state.epoch, nonceEntropy, ∅⟩ := by
  simp only [propose, checkLive_bind_eq_ok, translating_bind_eq_ok, classEntry_eq_ok,
    checkDecision_bind_eq_ok, get_bind, set_bind, pure_eq_ok,
    Std.ExtTreeMap.mem_iff_isSome_getElem?, Option.isSome_iff_exists]
  constructor
  · rintro ⟨hlive, entry, _, ⟨hentry, rfl⟩, hproposable, rfl, hafter⟩
    exact ⟨hlive, ⟨entry, hentry⟩, hproposable, rfl, hafter⟩
  · rintro ⟨hlive, ⟨entry, hentry⟩, hproposable, rfl, hafter⟩
    exact ⟨hlive, entry, state, ⟨hentry, rfl⟩, hproposable, rfl, hafter⟩

theorem propose_eq_error {decision : Decision} {approvingClass : PolicyClass}
    {nonceEntropy : Bytes 32} {refusal : ProtocolError}
    (herror : propose decision approvingClass nonceEntropy state = .error refusal after) :
    after = state := by
  simp only [propose, checkLive_bind_eq_error, translating_bind_eq_error, classEntry_eq_error,
    classEntry_eq_ok] at herror
  obtain ⟨_, _, hafter⟩ | ⟨_, ⟨_, ⟨_, _, hafter⟩, _⟩ | ⟨_, _, ⟨_, rfl⟩, hrest⟩⟩ := herror
  · exact hafter
  · exact hafter
  · simp only [bind_eq_error, checkDecision_eq_ok, get_eq_error, set_eq_error, pure_eq_error,
      and_false, exists_false, or_false] at hrest
    exact checkDecision_eq_error hrest

-- The state under a changed policy.
def withPolicy (state : AgoraState depth) (policyClass : PolicyClass) (entry : ClassState depth)
    (admissionThreshold governanceQuorum : UInt32) : AgoraState depth :=
  { state with
    classes := state.classes.insert policyClass { entry with
      policy := { entry.policy with admissionThreshold }, version := entry.version + 1 }
    governanceQuorum
    log := state.log.map fun log =>
      log.append (.PolicyChanged state.epoch policyClass (entry.version + 1)) }

-- What carrying a decision out does, one case for each kind.
inductive Effect (state : AgoraState depth) :
    Decision → Executed → AgoraState depth → Prop
  | policy {policyClass : PolicyClass} {entry : ClassState depth}
      {admissionThreshold governanceQuorum : UInt32}
      (hentry : state.classes[policyClass]? = some entry) :
      Effect state (.Policy policyClass admissionThreshold governanceQuorum)
        (.Policy (entry.version + 1))
        (state.withPolicy policyClass entry admissionThreshold governanceQuorum)
  | revocation {leaf : Commitment} {next : Epoch} {after : AgoraState depth}
      (hboundary : Boundary next (state.stageRevocation leaf) after) :
      Effect state (.Revocation leaf) (.Revocation after.envelopeNow) after
  | dissolution : Effect state .Dissolution .Dissolved state.dissolve
  | inboxHorizon {boundaries : UInt64} :
      Effect state (.InboxHorizon boundaries) (.InboxHorizon boundaries)
        { state with inboxHorizon := boundaries }

-- Nothing is open and nothing is staged.
structure Cleared (state : AgoraState depth) : Prop where
  sessions : state.sessions = ∅
  proposals : state.proposals = ∅
  challenges : state.challenges = ∅
  staged : state.staged = {}

-- Everything open, everything staged and both inbox maps are as they were, in the same epoch.
structure Untouched (before after : AgoraState depth) : Prop where
  agora : after.agora = before.agora
  epoch : after.epoch = before.epoch
  dissolved : after.dissolved = before.dissolved
  sessions : after.sessions = before.sessions
  proposals : after.proposals = before.proposals
  challenges : after.challenges = before.challenges
  staged : after.staged = before.staged
  stagedInboxes : after.stagedInboxes = before.stagedInboxes
  inboxes : after.inboxes = before.inboxes

theorem Boundary.cleared {next : Epoch} {before : AgoraState depth}
    (hboundary : Boundary next before after) : Cleared after :=
  ⟨hboundary.sessions, hboundary.proposals, hboundary.challenges, hboundary.staged⟩

theorem Effect.clears_or_keeps {before : AgoraState depth} {decision : Decision}
    {executed : Executed} (heffect : Effect before decision executed after) :
    Cleared after ∨ Untouched before after := by
  cases heffect with
  | policy hentry => exact Or.inr ⟨rfl, rfl, rfl, rfl, rfl, rfl, rfl, rfl, rfl⟩
  | revocation hboundary => exact Or.inl hboundary.cleared
  | dissolution => exact Or.inl ⟨rfl, rfl, rfl, rfl⟩
  | inboxHorizon => exact Or.inr ⟨rfl, rfl, rfl, rfl, rfl, rfl, rfl, rfl, rfl⟩

theorem effect_of_execute {subject : SubjectId} {executed : Executed}
    (hexecute : execute subject state = .ok executed after) :
    ∃ proposal, Carried state subject proposal ∧
      Effect (state.consume subject) proposal.decision executed after := by
  simp only [execute, checkLive_bind_eq_ok, get_bind, expect_bind_eq_ok, ensure_bind_eq_ok,
    modify_bind] at hexecute
  obtain ⟨hlive, proposal, hraised, hquorum, hdecision⟩ := hexecute
  refine ⟨proposal, ⟨hlive, hraised, hquorum⟩, ?_⟩
  cases hkind : proposal.decision with
  | Policy policyClass admissionThreshold governanceQuorum =>
      simp only [hkind, activate, get_bind, expect_bind_eq_ok, modify_bind, pure_eq_ok]
        at hdecision
      obtain ⟨entry, hentry, rfl, rfl⟩ := hdecision
      exact .policy hentry
  | Revocation leaf =>
      simp only [hkind, modify_bind, bind_pure_eq_ok] at hdecision
      obtain ⟨envelope, hadvance, rfl⟩ := hdecision
      obtain ⟨_, ⟨next, hboundary⟩, rfl⟩ := boundary_of_advanceEpoch hadvance
      exact .revocation hboundary
  | Dissolution =>
      simp only [hkind, modify_bind, pure_eq_ok] at hdecision
      obtain ⟨rfl, rfl⟩ := hdecision
      exact .dissolution
  | InboxHorizon boundaries =>
      simp only [hkind, modify_bind, pure_eq_ok] at hdecision
      obtain ⟨rfl, rfl⟩ := hdecision
      exact .inboxHorizon

-- A met quorum consumes the proposal; a revocation at the last epoch drops what was staged too.
theorem execute_eq_error {subject : SubjectId} {refusal : ProtocolError}
    (hprovisioned : state.Provisioned) (herror : execute subject state = .error refusal after) :
    (¬ ∃ proposal, Carried state subject proposal) ∧ after = state ∨
      ∃ proposal, Carried state subject proposal ∧
        ((∀ leaf, proposal.decision ≠ .Revocation leaf) ∧ after = state.consume subject ∨
          (∃ leaf, proposal.decision = .Revocation leaf) ∧ state.epoch.next = none ∧
            after = (state.consume subject).unstage) := by
  simp only [execute, checkLive_bind_eq_error, get_bind, expect_bind_eq_error,
    ensure_bind_eq_error, modify_bind] at herror
  obtain ⟨hdissolved, _, hafter⟩ | ⟨hlive, ⟨hnone, _, hafter⟩ | ⟨proposal, hraised,
    ⟨hshort, _, hafter⟩ | ⟨hquorum, hdecision⟩⟩⟩ := herror
  · refine Or.inl ⟨?_, hafter⟩
    rintro ⟨_, hcarried⟩
    exact absurd (hcarried.live.symm.trans hdissolved) (by decide)
  · refine Or.inl ⟨?_, hafter⟩
    rintro ⟨_, hcarried⟩
    rw [hcarried.raised] at hnone
    cases hnone
  · refine Or.inl ⟨?_, hafter⟩
    rintro ⟨other, hcarried⟩
    apply hshort
    obtain rfl : proposal = other := Option.some_inj.1 (hraised.symm.trans hcarried.raised)
    exact hcarried.quorum
  refine Or.inr ⟨proposal, ⟨hlive, hraised, hquorum⟩, ?_⟩
  cases hkind : proposal.decision with
  | Policy policyClass admissionThreshold governanceQuorum =>
      simp only [hkind, activate, get_bind, expect_bind_eq_error, modify_bind, pure_eq_error,
        and_false, exists_false, or_false] at hdecision
      obtain ⟨_, _, hafter⟩ := hdecision
      exact Or.inl ⟨by simp, hafter⟩
  | Revocation leaf =>
      simp only [hkind, modify_bind, bind_pure_eq_error] at hdecision
      have hready : (stageRevocation (state.consume subject) leaf).Provisioned :=
        ⟨hprovisioned.configured, hprovisioned.room, hprovisioned.unlanded,
          hprovisioned.distinct⟩
      rcases advanceEpoch_eq_error hready hdecision with ⟨hdissolved, _⟩ | ⟨_, hnone, rfl⟩
      · exact absurd (hlive.symm.trans hdissolved) (by decide)
      · exact Or.inr ⟨⟨leaf, rfl⟩, hnone, rfl⟩
  | Dissolution => simp only [hkind, modify_bind, pure_eq_error] at hdecision
  | InboxHorizon boundaries => simp only [hkind, modify_bind, pure_eq_error] at hdecision

end Nymora.Protocol.Operator.AgoraState
