import Nymora.Protocol.Operator.Run.Admission

namespace Nymora.Protocol.Operator.AgoraState

open Nymora.Core
open Nymora.Crypto
open Nymora.Circuits
open Nymora.Proofs
open Std (ExtTreeMap ExtTreeSet)

variable {depth : Nat} {system : ProofSystem depth}

-- A recorded approval, with the proof that was accepted and the roots it was checked against.
def Approves (event : Event system) (agora : AgoraId) (epoch : Epoch) (subject : SubjectId)
    (approvingClass : PolicyClass) (nullifier : Nullifier) : Prop :=
  event.before.epoch = epoch ∧ event.outcome = .ok .recorded ∧ ∃ proof roots,
    event.call = .approve subject proof nullifier ∧
      event.before.rootsIn epoch approvingClass = .ok roots ∧
      verifyPolicyApproval system proof agora epoch roots subject.asBytes.toList nullifier

-- An accepted execution of a subject.
def Executes (event : Event system) (subject : SubjectId) (executed : Executed) : Prop :=
  event.call = .execute subject ∧ event.outcome = .ok (.executed executed)

variable [Primitives]

-- An accepted opening of a proposal under the subject its own content derives.
def Proposes (event : Event system) (agora : AgoraId) (epoch : Epoch) (subject : SubjectId)
    (decision : Decision) (approvingClass : PolicyClass) (nonce : Bytes 32) : Prop :=
  event.before.epoch = epoch ∧ event.outcome = .ok (.subject subject) ∧
    event.call = .propose decision approvingClass nonce ∧
    subject = subjectId agora epoch approvingClass decision nonce

-- What the history knows of an open proposal: it was raised in this epoch, every nullifier it
-- holds came with an accepted proof since, and it has not been executed.
structure Raised (earlier : History system) (raising : Event system) (later : History system)
    (agora : AgoraId) (epoch : Epoch) (subject : SubjectId) (proposal : Proposal) : Prop where
  proposes : Proposes raising agora epoch subject proposal.decision proposal.approvingClass
    proposal.nonce
  proposable : Proposable raising.before proposal.decision
  opened : proposal.opened = epoch
  sameEpoch : ∀ event ∈ later, event.before.epoch = epoch
  unexecuted : ∀ event ∈ later, ∀ executed, ¬ Executes event subject executed
  approved : ∀ nullifier ∈ proposal.approvals, ∃ event ∈ later,
    Approves event agora epoch subject proposal.approvingClass nullifier

-- What warrants an execution: the history before it raised the decision it carries out, and
-- gathered the quorum in force under that subject.
def Warranted (earlier : History system) (event : Event system) (subject : SubjectId)
    (executed : Executed) : Prop :=
  ∃ before raising between proposal, earlier = before ++ raising :: between ∧
    Raised before raising between event.before.agora event.before.epoch subject proposal ∧
    event.before.governanceQuorum.toNat ≤ proposal.approvals.size ∧
    Effect (event.before.consume subject) proposal.decision executed event.after

-- The settings governance acts on are never out of bounds.
structure Settled (state : AgoraState depth) : Prop where
  quorum : state.governanceQuorum ≠ 0
  thresholds : ∀ (policyClass : PolicyClass) (entry : ClassState depth),
    state.classes[policyClass]? = some entry → entry.policy.admissionThreshold ≠ 0
  horizon : MIN_INBOX_HORIZON ≤ state.inboxHorizon

-- The invariant of governance.
structure Governed (history : History system) (state : AgoraState depth) : Prop where
  settled : Settled state
  proposals : ∀ (subject : SubjectId) (proposal : Proposal),
    state.proposals[subject]? = some proposal → ∃ earlier raising later,
      history = earlier ++ raising :: later ∧
        Raised earlier raising later state.agora state.epoch subject proposal
  executions : ∀ (earlier : History system) (event : Event system), earlier ++ [event] <+: history →
    ∀ subject executed, Executes event subject executed → Warranted earlier event subject executed

theorem Fresh.governed {founding : Founding} {created : AgoraState depth}
    (hfresh : Fresh founding created) : Governed ([] : History system) created where
  settled := {
    quorum := by
      rw [hfresh.governanceQuorum]
      decide
    thresholds := fun policyClass entry hentry =>
      (hfresh.founded policyClass entry hentry).threshold
    horizon := by
      rw [hfresh.inboxHorizon]
      decide }
  proposals := by simp [hfresh.proposals]
  executions := by simp

variable {before after : AgoraState depth} {history : History system}

theorem Settled.boundary {next : Epoch} (hsettled : Settled before)
    (hboundary : Boundary next before after) : Settled after where
  quorum := by
    rw [hboundary.governanceQuorum]
    exact hsettled.quorum
  thresholds := by
    intro policyClass entry hentry
    cases hearlier : before.classes[policyClass]? with
    | none =>
        rw [hboundary.unconfigured policyClass hearlier] at hentry
        cases hentry
    | some earlier =>
        obtain ⟨landed, hlanded, hlands⟩ := hboundary.lands policyClass earlier hearlier
        obtain rfl : entry = landed := Option.some_inj.1 (hentry.symm.trans hlanded)
        rw [hlands.policy_eq]
        exact hsettled.thresholds policyClass earlier hearlier
  horizon := by
    rw [hboundary.inboxHorizon]
    exact hsettled.horizon

-- What opening a proposal asked for is what keeps the settings in bounds when it executes.
theorem Settled.effect {raised : AgoraState depth} {decision : Decision} {executed : Executed}
    (hsettled : Settled before) (hproposable : Proposable raised decision)
    (heffect : Effect before decision executed after) : Settled after := by
  cases heffect with
  | @policy policyClass entry admissionThreshold governanceQuorum hentry =>
      obtain ⟨_, hthreshold, hquorum⟩ := hproposable
      refine ⟨hquorum, ?_, hsettled.horizon⟩
      intro other otherEntry hother
      simp only [withPolicy, ExtTreeMap.getElem?_insert, Std.compare_eq_iff_eq] at hother
      by_cases heq : policyClass = other
      · rw [if_pos heq, Option.some_inj] at hother
        rw [← hother]
        exact hthreshold
      · rw [if_neg heq] at hother
        exact hsettled.thresholds other otherEntry hother
  | @revocation leaf _ _ hboundary =>
      have hstaged : Settled (before.stageRevocation leaf) :=
        ⟨hsettled.quorum, hsettled.thresholds, hsettled.horizon⟩
      exact hstaged.boundary hboundary
  | dissolution => exact ⟨hsettled.quorum, hsettled.thresholds, hsettled.horizon⟩
  | inboxHorizon => exact ⟨hsettled.quorum, hsettled.thresholds, hproposable⟩

theorem Governed.settled_step {call : Call system} {outcome : Outcome}
    (hgoverned : Governed history before)
    (htransition : Transition system before call outcome after) : Settled after := by
  have hsettled := hgoverned.settled
  cases htransition with
  | @execute subject proposal executed _ hcarried heffect =>
      obtain ⟨_, _, _, _, hraised⟩ := hgoverned.proposals subject proposal hcarried.raised
      have hconsumed : Settled (before.consume subject) :=
        ⟨hsettled.quorum, hsettled.thresholds, hsettled.horizon⟩
      exact hconsumed.effect hraised.proposable heffect
  | advanceEpoch _ hboundary => exact hsettled.boundary hboundary
  | _ => exact ⟨hsettled.quorum, hsettled.thresholds, hsettled.horizon⟩

-- A proposal the step neither wrote nor executed is raised as before.
theorem Raised.concat {earlier later : History system} {raising event : Event system}
    {agora : AgoraId} {epoch : Epoch} {subject : SubjectId} {proposal : Proposal}
    (hraised : Raised earlier raising later agora epoch subject proposal)
    (hepoch : event.before.epoch = epoch)
    (hunexecuted : ∀ executed, ¬ Executes event subject executed) :
    Raised earlier raising (later ++ [event]) agora epoch subject proposal where
  proposes := hraised.proposes
  proposable := hraised.proposable
  opened := hraised.opened
  sameEpoch := by
    intro other hother
    rcases List.mem_append.1 hother with hearlier | hlast
    · exact hraised.sameEpoch other hearlier
    · rw [List.mem_singleton.1 hlast]
      exact hepoch
  unexecuted := by
    intro other hother
    rcases List.mem_append.1 hother with hearlier | hlast
    · exact hraised.unexecuted other hearlier
    · rw [List.mem_singleton.1 hlast]
      exact hunexecuted
  approved := by
    intro nullifier hnullifier
    obtain ⟨approval, hmem, happroves⟩ := hraised.approved nullifier hnullifier
    exact ⟨approval, List.mem_append_left _ hmem, happroves⟩

-- A counted approval is remembered by the event that recorded it.
theorem Raised.count {earlier later : History system} {raising event : Event system}
    {agora : AgoraId} {epoch : Epoch} {subject : SubjectId} {proposal : Proposal}
    {nullifier : Nullifier} (hraised : Raised earlier raising later agora epoch subject proposal)
    (happroves : Approves event agora epoch subject proposal.approvingClass nullifier)
    (hunexecuted : ∀ executed, ¬ Executes event subject executed) :
    Raised earlier raising (later ++ [event]) agora epoch subject
      { proposal with approvals := proposal.approvals.insert nullifier } := by
  have hkept := hraised.concat happroves.1 hunexecuted
  refine ⟨hkept.proposes, hkept.proposable, hkept.opened, hkept.sameEpoch, hkept.unexecuted, ?_⟩
  intro counted hcounted
  rw [ExtTreeSet.mem_insert, Std.compare_eq_iff_eq] at hcounted
  rcases hcounted with rfl | hearlier
  · exact ⟨event, List.mem_append_right _ (List.mem_singleton_self _), happroves⟩
  · exact hkept.approved counted hearlier

theorem Governed.proposals_step {call : Call system} {outcome : Outcome}
    (hgoverned : Governed history before)
    (htransition : Transition system before call outcome after) (subject : SubjectId)
    (proposal : Proposal) (hopen : after.proposals[subject]? = some proposal) :
    ∃ earlier raising later,
      history ++ [⟨before, call, outcome, after⟩] = earlier ++ raising :: later ∧
        Raised earlier raising later after.agora after.epoch subject proposal := by
  have hkept : before.proposals[subject]? = some proposal → after.agora = before.agora →
      after.epoch = before.epoch →
      (∀ executed, ¬ Executes ⟨before, call, outcome, after⟩ subject executed) →
      ∃ earlier raising later,
        history ++ [⟨before, call, outcome, after⟩] = earlier ++ raising :: later ∧
          Raised earlier raising later after.agora after.epoch subject proposal := by
    intro hearlier hagora hepoch hunexecuted
    obtain ⟨earlier, raising, later, rfl, hraised⟩ := hgoverned.proposals subject proposal hearlier
    rw [hagora, hepoch]
    exact ⟨earlier, raising, later ++ [_], List.append_assoc _ _ _,
      hraised.concat rfl hunexecuted⟩
  have herased : ∀ {other : SubjectId}, (before.proposals.erase other)[subject]? = some proposal →
      other ≠ subject ∧ before.proposals[subject]? = some proposal := by
    intro other herase
    simp only [ExtTreeMap.getElem?_erase, Std.compare_eq_iff_eq] at herase
    by_cases heq : other = subject
    · rw [if_pos heq] at herase
      cases herase
    · rw [if_neg heq] at herase
      exact ⟨heq, herase⟩
  cases htransition with
  | @propose decision approvingClass nonceEntropy raised hlive happroving hproposable hsubject =>
      simp only [withProposal, ExtTreeMap.getElem?_insert, Std.compare_eq_iff_eq] at hopen
      by_cases heq : raised = subject
      · rw [if_pos heq, Option.some_inj] at hopen
        subst heq hopen
        exact ⟨history, _, [], rfl, {
          proposes := ⟨rfl, rfl, rfl, hsubject⟩
          proposable := hproposable
          opened := rfl
          sameEpoch := by simp
          unexecuted := by simp
          approved := by simp }⟩
      · rw [if_neg heq] at hopen
        exact hkept hopen rfl rfl (by rintro executed ⟨hcall, _⟩; cases hcall)
  | @approve approved proof nullifier current roots hlive hraised hroots hproof hfresh =>
      have hunexecuted : ∀ executed, ¬ Executes (⟨before, .approve approved proof nullifier,
          .ok .recorded, before.withProposal approved
            { current with approvals := current.approvals.insert nullifier }⟩ : Event system)
          subject executed := by
        rintro executed ⟨hcall, _⟩
        cases hcall
      simp only [withProposal, ExtTreeMap.getElem?_insert, Std.compare_eq_iff_eq] at hopen
      by_cases heq : approved = subject
      · rw [if_pos heq, Option.some_inj] at hopen
        subst heq hopen
        obtain ⟨earlier, raising, later, rfl, hearlier⟩ :=
          hgoverned.proposals approved current hraised
        refine ⟨earlier, raising, later ++ [_], List.append_assoc _ _ _, ?_⟩
        exact hearlier.count ⟨rfl, rfl, proof, roots, rfl, hroots, hproof⟩ hunexecuted
      · rw [if_neg heq] at hopen
        exact hkept hopen rfl rfl hunexecuted
  | @execute executing carried executed _ hcarried heffect =>
      rcases heffect.clears_or_keeps with hcleared | huntouched
      · rw [hcleared.proposals] at hopen
        simp at hopen
      · rw [huntouched.proposals] at hopen
        obtain ⟨hne, hearlier⟩ := herased hopen
        refine hkept hearlier huntouched.agora huntouched.epoch ?_
        rintro executed ⟨hcall, _⟩
        exact hne (Call.execute.inj hcall)
  | executeConsumed =>
      exact hkept (herased hopen).2 rfl rfl (by rintro executed ⟨_, houtcome⟩; cases houtcome)
  | executeLost =>
      exact hkept (herased hopen).2 rfl rfl (by rintro executed ⟨_, houtcome⟩; cases houtcome)
  | advanceEpoch _ hboundary =>
      rw [hboundary.proposals] at hopen
      simp at hopen
  | refused => exact hkept hopen rfl rfl (by rintro executed ⟨_, houtcome⟩; cases houtcome)
  | _ => exact hkept hopen rfl rfl (by rintro executed ⟨hcall, _⟩; cases hcall)

theorem Governed.executions_step {call : Call system} {outcome : Outcome}
    (hgoverned : Governed history before)
    (htransition : Transition system before call outcome after) (earlier : History system)
    (event : Event system) (hwithin : earlier ++ [event] <+: history ++
      [⟨before, call, outcome, after⟩]) (subject : SubjectId) (executed : Executed)
    (hexecutes : Executes event subject executed) : Warranted earlier event subject executed := by
  rcases List.prefix_concat_iff.1 hwithin with hwhole | hearlier
  · obtain ⟨rfl, hlast⟩ := List.append_inj' hwhole rfl
    obtain rfl := List.singleton_injective hlast
    obtain ⟨hcall, houtcome⟩ := hexecutes
    cases htransition with
    | execute hcarried heffect =>
        cases hcall
        cases houtcome
        obtain ⟨first, raising, between, rfl, hraised⟩ :=
          hgoverned.proposals _ _ hcarried.raised
        exact ⟨first, raising, between, _, rfl, hraised, hcarried.quorum, heffect⟩
    | refused => cases houtcome
    | executeConsumed => cases houtcome
    | executeLost => cases houtcome
    | _ => cases hcall
  · exact hgoverned.executions earlier event hearlier subject executed hexecutes

-- Between two executions of one subject it was raised anew.
theorem Warranted.raised_between {earlier between : History system} {first second : Event system}
    {subject : SubjectId} {executed again : Executed} (hfirst : Executes first subject executed)
    (hwarranted : Warranted (earlier ++ first :: between) second subject again) :
    ∃ raising ∈ between, ∃ decision approvingClass nonce,
      Proposes raising second.before.agora second.before.epoch subject decision approvingClass
        nonce := by
  obtain ⟨before, raising, later, proposal, hsplit, hraised, _, _⟩ := hwarranted
  refine ⟨raising, ?_, _, _, _, hraised.proposes⟩
  rcases List.append_eq_append_iff.1 hsplit with ⟨rest, rfl, hrest⟩ | ⟨rest, rfl, hrest⟩
  · cases rest with
    | nil =>
        obtain ⟨rfl, _⟩ := List.cons.inj hrest
        have hcall := hraised.proposes.2.2.1
        rw [hfirst.1] at hcall
        cases hcall
    | cons head rest =>
        obtain ⟨_, rfl⟩ := List.cons.inj hrest
        exact List.mem_append_right _ List.mem_cons_self
  · cases rest with
    | nil =>
        obtain ⟨rfl, _⟩ := List.cons.inj hrest
        have hcall := hraised.proposes.2.2.1
        rw [hfirst.1] at hcall
        cases hcall
    | cons head rest =>
        obtain ⟨_, rfl⟩ := List.cons.inj hrest
        have hlater : first ∈ rest ++ first :: between :=
          List.mem_append_right _ List.mem_cons_self
        exact absurd hfirst (hraised.unexecuted first hlater executed)

theorem Governed.step {call : Call system} {outcome : Outcome}
    (hgoverned : Governed history before)
    (htransition : Transition system before call outcome after) :
    Governed (history ++ [⟨before, call, outcome, after⟩]) after where
  settled := hgoverned.settled_step htransition
  proposals := hgoverned.proposals_step htransition
  executions := hgoverned.executions_step htransition

theorem Execution.governed {founding : Founding} {created state : AgoraState depth}
    (hexecution : Execution system created history state) (hfresh : Fresh founding created) :
    Governed history state :=
  (execution_invariant hexecution hfresh.sound (hfresh.governed : Governed [] created)
    (fun _ _ _ _ _ _ hgoverned htransition => hgoverned.step htransition)).2

-- In every run over any proof system, an execution carries out a decision raised in its own
-- epoch and approved there by the quorum in force, nothing raised once executes twice, and the
-- settings stay in bounds.
theorem execution_was_warranted {founding : Founding} {tagSecret statementEntropy : Bytes 32}
    {logSeed : Option (Bytes 32)} {created state : AgoraState depth}
    (hcreate : create founding tagSecret statementEntropy logSeed = .ok created)
    (hexecution : Execution system created history state) :
    (∀ (earlier : History system) (event : Event system), earlier ++ [event] <+: history →
      ∀ subject executed, Executes event subject executed →
        Warranted earlier event subject executed) ∧
    (∀ (earlier between : History system) (first second : Event system),
      earlier ++ first :: between ++ [second] <+: history → ∀ subject executed again,
        Executes first subject executed → Executes second subject again →
          ∃ raising ∈ between, ∃ decision approvingClass nonce,
            Proposes raising second.before.agora second.before.epoch subject decision
              approvingClass nonce) ∧
    1 ≤ state.governanceQuorum.toNat ∧
    (∀ (policyClass : PolicyClass) (entry : ClassState depth),
      state.classes[policyClass]? = some entry → 1 ≤ entry.policy.admissionThreshold.toNat) ∧
    MIN_INBOX_HORIZON ≤ state.inboxHorizon ∧
    ∀ (subject : SubjectId) (proposal : Proposal),
      state.proposals[subject]? = some proposal → proposal.opened = state.epoch := by
  have hgoverned := hexecution.governed (fresh_of_create hcreate)
  have hpositive : ∀ {count : UInt32}, count ≠ 0 → 1 ≤ count.toNat := by
    intro count hcount
    have hne : count.toNat ≠ 0 := fun hzero => hcount (UInt32.toNat_inj.1 hzero)
    omega
  refine ⟨hgoverned.executions, ?_, hpositive hgoverned.settled.quorum, ?_,
    hgoverned.settled.horizon, ?_⟩
  · intro earlier between first second hwithin subject executed again hfirst hsecond
    exact (hgoverned.executions _ second hwithin subject again hsecond).raised_between hfirst
  · intro policyClass entry hentry
    exact hpositive (hgoverned.settled.thresholds policyClass entry hentry)
  · intro subject proposal hopen
    obtain ⟨_, _, _, _, hraised⟩ := hgoverned.proposals subject proposal hopen
    exact hraised.opened

end Nymora.Protocol.Operator.AgoraState

namespace Nymora.Protocol.Operator.AgoraState.Sample

open Nymora.Core
open Nymora.Crypto
open scoped Nymora.Crypto.Reference

-- The founder alone is the quorum for a new horizon.
def lapsing : Decision := .InboxHorizon 30

def lapsingSubject : SubjectId := subjectId founding.agora founding.genesis members lapsing entropy

def governing : List (Call (accepting 2)) :=
  [.propose lapsing members entropy, .approve lapsingSubject () nullifier]

theorem execution_was_warranted_horizon :
    Warranted (played (accepting 2) start governing)
      (playing (accepting 2) start governing (.execute lapsingSubject)) lapsingSubject
      (.InboxHorizon 30) := by
  have hexecutes : Executes (playing (accepting 2) start governing (.execute lapsingSubject))
      lapsingSubject (.InboxHorizon 30) := ⟨rfl, by decide +kernel⟩
  have hplayed := @played_split _ _ _ start governing (.execute lapsingSubject) []
  refine (execution_was_warranted create_start (execution_played
    (governing ++ [.execute lapsingSubject]))).1 _ _ ?_ _ _ hexecutes
  rw [hplayed]
  exact List.prefix_refl _

end Nymora.Protocol.Operator.AgoraState.Sample
