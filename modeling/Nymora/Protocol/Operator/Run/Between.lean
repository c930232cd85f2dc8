import Nymora.Protocol.Operator.Envelope.Theorems
import Nymora.Protocol.Operator.Run.Admission

namespace Nymora.Protocol.Operator.AgoraState

open Nymora.Core
open Nymora.Crypto
open Nymora.Accumulator
open Nymora.Circuits
open Nymora.Proofs
open Std (ExtTreeMap ExtTreeSet)

variable {depth : Nat} {system : ProofSystem depth} {before after start state : AgoraState depth}

-- A successful boundary, called for or forced by a revocation.
def Turns (event : Event system) : Prop :=
  ∃ envelope, event.call = .advanceEpoch ∧ event.outcome = .ok (.envelope envelope) ∨
    event.outcome = .ok (.executed (.Revocation envelope))

def handsEnvelope : Outcome → Bool
  | .ok (.envelope _) => true
  | _ => false

theorem turns_of_advanceEpoch {event : Event system} (hcall : event.call = .advanceEpoch)
    (hhands : handsEnvelope event.outcome = true) : Turns event := by
  unfold handsEnvelope at hhands
  split at hhands
  next envelope houtcome => exact ⟨envelope, Or.inl ⟨hcall, houtcome⟩⟩
  next => cases hhands

-- A boundary that is called for hands out the envelope of the state it leaves.
theorem step_advanceEpoch [Primitives] {system : ProofSystem depth}
    (hhands : handsEnvelope (step system start .advanceEpoch).1 = true) :
    step system start .advanceEpoch =
      (.ok (.envelope (step system start .advanceEpoch).2.envelopeNow),
        (step system start .advanceEpoch).2) := by
  unfold handsEnvelope at hhands
  split at hhands
  next envelope houtcome =>
    have hstep : step system start .advanceEpoch =
        (.ok (.envelope envelope), (step system start .advanceEpoch).2) := Prod.ext houtcome rfl
    have htransition := transition_of_ok (step_eq_ok.1 hstep)
    cases htransition with
    | advanceEpoch => exact hstep
  next => cases hhands

def handsRevocation : Outcome → Bool
  | .ok (.executed (.Revocation _)) => true
  | _ => false

theorem turns_of_revocation {event : Event system}
    (hhands : handsRevocation event.outcome = true) : Turns event := by
  unfold handsRevocation at hhands
  split at hhands
  next envelope houtcome => exact ⟨envelope, Or.inr houtcome⟩
  next => cases hhands

-- What stays as it was from one boundary to the next: the trees, the sets and the snapshots do
-- not move, and what is staged stays staged in its order.
structure Keeps (before after : AgoraState depth) : Prop where
  agora : after.agora = before.agora
  epoch : after.epoch = before.epoch
  dissolved : after.dissolved = before.dissolved
  history : after.history = before.history
  revocations : after.revocations = before.revocations
  spends : after.spends = before.spends
  revokedLeaves : after.revokedLeaves = before.revokedLeaves
  tagSecret : after.tagSecret = before.tagSecret
  statementSeed : after.statementSeed = before.statementSeed
  landings : (after.classes.map fun _ entry => entry.landings) =
    before.classes.map fun _ entry => entry.landings
  admissions : before.staged.admissions <+: after.staged.admissions
  stagedSpends : before.staged.spends <+: after.staged.spends

theorem Keeps.refl (state : AgoraState depth) : Keeps state state :=
  ⟨rfl, rfl, rfl, rfl, rfl, rfl, rfl, rfl, rfl, rfl, List.prefix_rfl, List.prefix_rfl⟩

theorem Keeps.trans {middle : AgoraState depth} (hfirst : Keeps before middle)
    (hsecond : Keeps middle after) : Keeps before after where
  agora := hsecond.agora.trans hfirst.agora
  epoch := hsecond.epoch.trans hfirst.epoch
  dissolved := hsecond.dissolved.trans hfirst.dissolved
  history := hsecond.history.trans hfirst.history
  revocations := hsecond.revocations.trans hfirst.revocations
  spends := hsecond.spends.trans hfirst.spends
  revokedLeaves := hsecond.revokedLeaves.trans hfirst.revokedLeaves
  tagSecret := hsecond.tagSecret.trans hfirst.tagSecret
  statementSeed := hsecond.statementSeed.trans hfirst.statementSeed
  landings := hsecond.landings.trans hfirst.landings
  admissions := hfirst.admissions.trans hsecond.admissions
  stagedSpends := hfirst.stagedSpends.trans hsecond.stagedSpends

-- A class configured at one end is configured at the other, with the same landings.
theorem Keeps.landings_eq (hkeeps : Keeps before after) {policyClass : PolicyClass}
    {entry : ClassState depth} (hentry : before.classes[policyClass]? = some entry) :
    ∃ later, after.classes[policyClass]? = some later ∧ later.landings = entry.landings := by
  have hlookup := congrArg (fun classes => classes[policyClass]?) hkeeps.landings
  simp only [ExtTreeMap.getElem?_map, hentry, Option.map_some, Option.map_eq_some_iff] at hlookup
  exact hlookup

theorem Quiet.keeps (hquiet : Quiet before after)
    (hadmissions : before.staged.admissions <+: after.staged.admissions)
    (hspends : before.staged.spends <+: after.staged.spends) : Keeps before after where
  agora := hquiet.agora
  epoch := hquiet.epoch
  dissolved := hquiet.dissolved
  history := hquiet.history
  revocations := hquiet.revocations
  spends := hquiet.spends
  revokedLeaves := hquiet.revokedLeaves
  tagSecret := hquiet.tagSecret
  statementSeed := hquiet.statementSeed
  landings := by rw [hquiet.classes]
  admissions := hadmissions
  stagedSpends := hspends

theorem Ready.keeps (hready : Ready before after) : Keeps before after :=
  hready.quiet.keeps (hready.admissions ▸ List.prefix_rfl) (hready.spends ▸ List.prefix_rfl)

variable [Primitives]

theorem keeps_withPolicy {policyClass : PolicyClass} {entry : ClassState depth}
    {admissionThreshold governanceQuorum : UInt32}
    (hentry : state.classes[policyClass]? = some entry) :
    Keeps state (state.withPolicy policyClass entry admissionThreshold governanceQuorum) := by
  refine ⟨rfl, rfl, rfl, rfl, rfl, rfl, rfl, rfl, rfl, ?_, List.prefix_rfl, List.prefix_rfl⟩
  apply ExtTreeMap.ext_getElem?
  intro other
  simp only [withPolicy, ExtTreeMap.getElem?_map', ExtTreeMap.getElem?_insert,
    Std.compare_eq_iff_eq]
  by_cases heq : policyClass = other
  · subst heq
    simp [hentry, ClassState.landings]
  · simp [heq]

-- Short of a boundary, a dissolution and the last epoch, a step keeps what is landed and staged.
theorem Transition.keeps {call : Call system} {outcome : Outcome}
    (htransition : Transition system before call outcome after)
    (hunturned : ¬ Turns (⟨before, call, outcome, after⟩ : Event system))
    (hlive : after.dissolved = false) (hnext : before.epoch.next ≠ none) : Keeps before after := by
  have hsame : Quiet before before := (Ready.refl before).quiet
  cases htransition with
  | refused => exact .refl _
  | vouchFinalize => exact ⟨rfl, rfl, rfl, rfl, rfl, rfl, rfl, rfl, rfl, rfl,
      List.prefix_append _ _, List.prefix_rfl⟩
  | migrate => exact ⟨rfl, rfl, rfl, rfl, rfl, rfl, rfl, rfl, rfl, rfl, List.prefix_append _ _,
      List.prefix_append _ _⟩
  | finalizeLost hnone => exact absurd hnone hnext
  | migrateLost hnone => exact absurd hnone hnext
  | executeLost hnone => exact absurd hnone hnext
  | advanceLost hnone => exact absurd hnone hnext
  | advanceEpoch => exact absurd ⟨_, Or.inl ⟨rfl, rfl⟩⟩ hunturned
  | @execute subject proposal executed _ hcarried heffect =>
      have hconsumed : Keeps before (before.consume subject) := (ready_consume _ _).keeps
      generalize proposal.decision = decision at heffect
      cases heffect with
      | policy hentry => exact hconsumed.trans (keeps_withPolicy hentry)
      | revocation => exact absurd ⟨_, Or.inr rfl⟩ hunturned
      | dissolution => cases hlive
      | inboxHorizon => exact ⟨rfl, rfl, rfl, rfl, rfl, rfl, rfl, rfl, rfl, rfl, List.prefix_rfl,
          List.prefix_rfl⟩
  | _ => exact ⟨rfl, rfl, rfl, rfl, rfl, rfl, rfl, rfl, rfl, rfl, List.prefix_rfl, List.prefix_rfl⟩

theorem Transition.epoch_eq {call : Call system} {outcome : Outcome}
    (htransition : Transition system before call outcome after)
    (hunturned : ¬ Turns (⟨before, call, outcome, after⟩ : Event system)) :
    after.epoch = before.epoch := by
  cases htransition with
  | advanceEpoch => exact absurd ⟨_, Or.inl ⟨rfl, rfl⟩⟩ hunturned
  | @execute subject proposal _ _ _ heffect =>
      generalize proposal.decision = decision at heffect
      cases heffect with
      | revocation => exact absurd ⟨_, Or.inr rfl⟩ hunturned
      | _ => rfl
  | _ => rfl

theorem Transition.boundary_of_turns {call : Call system} {outcome : Outcome}
    (htransition : Transition system before call outcome after)
    (hturns : Turns (⟨before, call, outcome, after⟩ : Event system)) :
    before.dissolved = false ∧ ∃ ready next, Ready before ready ∧ Boundary next ready after := by
  obtain ⟨envelope, ⟨hcall, houtcome⟩ | houtcome⟩ := hturns
  · cases htransition with
    | advanceEpoch hlive hboundary => exact ⟨hlive, _, _, Ready.refl _, hboundary⟩
    | refused => cases houtcome
    | advanceLost => cases houtcome
    | _ => cases hcall
  · cases htransition with
    | @execute subject proposal _ _ hcarried heffect =>
        generalize proposal.decision = decision at heffect
        cases heffect with
        | revocation hboundary =>
            exact ⟨hcarried.live, _, _, ready_stageRevocation _ _ _, hboundary⟩
        | _ => cases houtcome
    | _ => cases houtcome

-- Only these two calls turn an epoch.
theorem Transition.call_of_turns {call : Call system} {outcome : Outcome}
    (htransition : Transition system before call outcome after)
    (hturns : Turns (⟨before, call, outcome, after⟩ : Event system)) :
    call = .advanceEpoch ∨ ∃ subject, call = .execute subject := by
  obtain ⟨envelope, ⟨hcall, _⟩ | houtcome⟩ := hturns
  · exact Or.inl hcall
  · cases htransition with
    | @execute subject _ _ _ _ _ => exact Or.inr ⟨subject, rfl⟩
    | _ => cases houtcome

theorem Course.dissolved (hcourse : Course before after) (hdissolved : before.dissolved = true) :
    after.dissolved = true := by
  cases hcourse with
  | quiet hquiet => exact hquiet.dissolved.trans hdissolved
  | policy hready _ => exact hready.quiet.dissolved.trans hdissolved
  | dissolution => rfl
  | inboxHorizon hready => exact hready.quiet.dissolved.trans hdissolved
  | boundary hlive => exact absurd (hlive.symm.trans hdissolved) (by decide)

-- Only a dissolution wipes the statement seed.
theorem Course.statementSeed (hcourse : Course before after) (hlive : after.dissolved = false) :
    before.dissolved = false ∧ after.statementSeed = before.statementSeed := by
  cases hcourse with
  | quiet hquiet => exact ⟨hquiet.dissolved ▸ hlive, hquiet.statementSeed⟩
  | policy hready _ => exact ⟨hready.quiet.dissolved ▸ hlive, hready.quiet.statementSeed⟩
  | dissolution _ => cases hlive
  | inboxHorizon hready => exact ⟨hready.quiet.dissolved ▸ hlive, hready.quiet.statementSeed⟩
  | boundary hbefore hready hboundary =>
      exact ⟨hbefore, hboundary.statementSeed.trans hready.quiet.statementSeed⟩

section Execution

variable {history earlier later between : History system}

theorem Execution.sound (hexecution : Execution system start history state)
    (hsound : start.Sound) : state.Sound :=
  (execution_invariant (motive := fun _ _ => True) hexecution hsound trivial
    (fun _ _ _ _ _ _ _ _ => trivial)).1

theorem Execution.split (hexecution : Execution system start (earlier ++ later) state) :
    ∃ middle, Execution system start earlier middle ∧ Execution system middle later state := by
  obtain ⟨calls, hevents, rfl⟩ := hexecution
  obtain ⟨first, second, rfl, hfirst, hsecond⟩ := Runs.events_eq_append hevents.symm
  refine ⟨Runs.final (step system) start first, ⟨first, hfirst.symm, rfl⟩, second,
    hsecond.symm, ?_⟩
  rw [Runs.final_append]

theorem Execution.join {middle : AgoraState depth}
    (hfirst : Execution system start earlier middle)
    (hsecond : Execution system middle later state) :
    Execution system start (earlier ++ later) state := by
  obtain ⟨first, rfl, rfl⟩ := hfirst
  obtain ⟨second, rfl, rfl⟩ := hsecond
  exact ⟨first ++ second, by rw [Runs.events_append], by rw [Runs.final_append]⟩

theorem Execution.head {event : Event system}
    (hexecution : Execution system start (event :: later) state) (hsound : start.Sound) :
    event.before = start ∧ Transition system start event.call event.outcome event.after ∧
      event.after.Sound ∧ Execution system event.after later state := by
  obtain ⟨calls, hevents, rfl⟩ := hexecution
  cases calls with
  | nil => cases hevents
  | cons call calls =>
      obtain ⟨rfl, hlater⟩ := List.cons.inj hevents
      have htransition := transition_of_step hsound.provisioned call
      exact ⟨rfl, htransition, htransition.sound hsound, calls, hlater, rfl⟩

-- What one event of a run starts from, does, and leaves to the rest of the run.
theorem Execution.at_event {event : Event system}
    (hexecution : Execution system start (earlier ++ event :: later) state)
    (hsound : start.Sound) :
    Execution system start earlier event.before ∧ event.before.Sound ∧
      Transition system event.before event.call event.outcome event.after ∧
      event.after.Sound ∧ Execution system event.after later state := by
  obtain ⟨middle, hearlier, hrest⟩ := hexecution.split
  have hmiddle := hearlier.sound hsound
  obtain ⟨rfl, htransition, hafter, hlater⟩ := hrest.head hmiddle
  exact ⟨hearlier, hmiddle, htransition, hafter, hlater⟩

-- What every step preserves, every run preserves.
theorem Execution.carries {motive : AgoraState depth → Prop}
    (hexecution : Execution system start history state) (hsound : start.Sound)
    (hstart : motive start) (hstep : ∀ (before after : AgoraState depth) (call : Call system)
      (outcome : Outcome), before.Sound → Transition system before call outcome after →
        motive before → motive after) : motive state := by
  refine (execution_invariant (motive := fun _ current => motive current) hexecution hsound
    hstart ?_).2
  intro done before after call outcome hbefore hmotive htransition
  exact hstep before after call outcome hbefore htransition hmotive

theorem Execution.preserves {motive : AgoraState depth → Prop}
    (hexecution : Execution system start history state) (hsound : start.Sound)
    (hstart : motive start) (hstep : ∀ before after : AgoraState depth, before.Sound →
      Course before after → motive before → motive after) : motive state := by
  refine hexecution.carries hsound hstart ?_
  intro before after call outcome hbefore htransition hmotive
  exact hstep before after hbefore htransition.course hmotive

theorem Execution.epoch_le (hexecution : Execution system start history state)
    (hsound : start.Sound) : start.epoch.get ≤ state.epoch.get :=
  hexecution.preserves (motive := fun current => start.epoch.get ≤ current.epoch.get) hsound
    (Nat.le_refl _) fun _ _ _ hcourse hle => Nat.le_trans hle hcourse.epoch_le

theorem Execution.agora (hexecution : Execution system start history state)
    (hsound : start.Sound) : state.agora = start.agora :=
  hexecution.preserves (motive := fun current => current.agora = start.agora) hsound rfl
    fun _ _ _ hcourse hagora => hcourse.agora.trans hagora

theorem Execution.statementKey (hexecution : Execution system start history state)
    (hsound : start.Sound) (hlive : state.dissolved = false) :
    state.statementKey = start.statementKey := by
  have hseed : state.dissolved = false → state.statementSeed = start.statementSeed := by
    apply hexecution.preserves (motive := fun current => current.dissolved = false →
      current.statementSeed = start.statementSeed) hsound
    · intro _
      rfl
    · intro before after _ hcourse hkept hafter
      obtain ⟨hbefore, hsame⟩ := hcourse.statementSeed hafter
      exact hsame.trans (hkept hbefore)
  exact congrArg Signature.SigningSeed.publicKey (hseed hlive)

-- No boundary lies between two states of one epoch.
theorem Execution.unturned (hexecution : Execution system start between state)
    (hsound : start.Sound) (hepoch : state.epoch = start.epoch) :
    ∀ event ∈ between, ¬ Turns event := by
  intro event hevent hturns
  obtain ⟨earlier, later, rfl⟩ := List.append_of_mem hevent
  obtain ⟨hearlier, _, htransition, hafter, hlater⟩ := hexecution.at_event hsound
  obtain ⟨_, ready, next, hready, hboundary⟩ := htransition.boundary_of_turns hturns
  have hfirst := hearlier.epoch_le hsound
  have hlast := hlater.epoch_le hafter
  have hnext := hboundary.epoch_get
  rw [hready.quiet.epoch] at hnext
  rw [hepoch] at hlast
  omega

theorem Execution.call_of_turns (hexecution : Execution system start history state)
    (hsound : start.Sound) {event : Event system} (hevent : event ∈ history)
    (hturns : Turns event) : event.call = .advanceEpoch ∨ ∃ subject, event.call = .execute subject := by
  obtain ⟨earlier, later, rfl⟩ := List.append_of_mem hevent
  obtain ⟨_, _, htransition, _, _⟩ := hexecution.at_event hsound
  exact htransition.call_of_turns hturns

-- One event of a run is a run of its own.
theorem Execution.single {event : Event system}
    (hexecution : Execution system start (earlier ++ event :: later) state) :
    Execution system event.before [event] event.after := by
  obtain ⟨middle, _, hrest⟩ := hexecution.split
  obtain ⟨calls, hevents, _⟩ := hrest
  cases calls with
  | nil => cases hevents
  | cons call calls =>
      obtain ⟨rfl, _⟩ := List.cons.inj hevents
      exact ⟨[call], rfl, rfl⟩

-- An event's answer and the state it leaves are what its call computes.
theorem Execution.performed {event : Event system}
    (hexecution : Execution system start (earlier ++ event :: later) state) :
    step system event.before event.call = (event.outcome, event.after) := by
  obtain ⟨middle, _, hrest⟩ := hexecution.split
  obtain ⟨calls, hevents, _⟩ := hrest
  cases calls with
  | nil => cases hevents
  | cons call calls =>
      obtain ⟨rfl, _⟩ := List.cons.inj hevents
      rfl

-- From one boundary to the next: what is landed and staged is kept, and what every step that
-- keeps it preserves holds at the end.
theorem Execution.keeps (hexecution : Execution system start between state)
    (hsound : start.Sound) (hunturned : ∀ event ∈ between, ¬ Turns event)
    (hlive : state.dissolved = false) (hnext : start.epoch.next ≠ none)
    {motive : History system → AgoraState depth → Prop} (hstart : motive [] start)
    (hstep : ∀ (done : History system) (before after : AgoraState depth) (call : Call system)
      (outcome : Outcome), before.Sound → Transition system before call outcome after →
        ¬ Turns (⟨before, call, outcome, after⟩ : Event system) → Keeps before after →
          motive done before → motive (done ++ [⟨before, call, outcome, after⟩]) after) :
    Keeps start state ∧ motive between state := by
  obtain ⟨_, hreached⟩ := execution_invariant (motive := fun done current =>
    (∀ event ∈ done, ¬ Turns event) →
      current.dissolved = true ∨ Keeps start current ∧ motive done current) hexecution hsound
    (fun _ => Or.inr ⟨.refl _, hstart⟩) (by
      intro done before after call outcome hbefore hdone htransition hsteps
      have hearlier := hdone fun event hevent => hsteps event (List.mem_append_left _ hevent)
      have hlast := hsteps _ (List.mem_append_right _ (List.mem_singleton_self _))
      rcases hearlier with hdissolved | ⟨hkept, hmotive⟩
      · exact Or.inl (htransition.course.dissolved hdissolved)
      · cases hafter : after.dissolved with
        | true => exact Or.inl rfl
        | false =>
            have hkeeps := htransition.keeps hlast hafter (by
              rw [hkept.epoch]
              exact hnext)
            exact Or.inr ⟨hkept.trans hkeeps,
              hstep done before after call outcome hbefore htransition hlast hkeeps hmotive⟩)
  rcases hreached hunturned with hdissolved | hkept
  · exact absurd (hlive.symm.trans hdissolved) (by decide)
  · exact hkept

end Execution

section Promise

-- A staged admission that the turn of its class will land at a position.
def Awaits (state : AgoraState depth) (policyClass : PolicyClass) (leaf : Commitment)
    (position : Nat) : Prop :=
  ∃ (entry : ClassState depth) (earlier later : List Commitment),
    state.classes[policyClass]? = some entry ∧
      stagedFor state.staged.admissions policyClass = earlier ++ leaf :: later ∧
      position = positionOf (entry.occupied + earlier.length)

omit [Primitives] in
theorem awaits_of_admission {policyClass : PolicyClass} {leaf : Commitment} {position : Nat}
    {entry : ClassState depth} (hentry : before.classes[policyClass]? = some entry)
    (hposition : position = before.promised policyClass entry)
    (hclasses : after.classes = before.classes)
    (hstaged : after.staged.admissions = before.staged.admissions ++ [(policyClass, leaf)]) :
    Awaits after policyClass leaf position := by
  refine ⟨entry, stagedFor before.staged.admissions policyClass, [], by rw [hclasses, hentry], ?_,
    hposition⟩
  rw [hstaged, stagedFor_append]
  simp [stagedFor]

omit [Primitives] in
theorem Keeps.awaits {policyClass : PolicyClass} {leaf : Commitment} {position : Nat}
    (hkeeps : Keeps before after) (hawaits : Awaits before policyClass leaf position) :
    Awaits after policyClass leaf position := by
  obtain ⟨entry, earlier, later, hentry, hstaged, hposition⟩ := hawaits
  obtain ⟨kept, hkept, hlandings⟩ := hkeeps.landings_eq hentry
  obtain ⟨more, hmore⟩ := hkeeps.admissions
  have hoccupied : kept.occupied = entry.occupied := congrArg (·.2.1) hlandings
  refine ⟨kept, earlier, later ++ stagedFor more policyClass, hkept, ?_, by rw [hoccupied, hposition]⟩
  rw [← hmore, stagedFor_append, hstaged, List.append_assoc, List.cons_append]

omit [Primitives] in
theorem Provisioned.nodup_stagedFor (hprovisioned : before.Provisioned)
    (policyClass : PolicyClass) : (stagedFor before.staged.admissions policyClass).Nodup := by
  refine List.Nodup.map_on ?_ (hprovisioned.distinct.filter _)
  intro first hfirst second hsecond heq
  have hleft := (List.mem_filter.1 hfirst).2
  have hright := (List.mem_filter.1 hsecond).2
  rw [decide_eq_true_iff] at hleft hright
  exact Prod.ext (hleft.trans hright.symm) heq

-- The boundary lands an awaited leaf where it was promised.
theorem Boundary.lands_awaited {next : Epoch} {policyClass : PolicyClass} {leaf : Commitment}
    {position : Nat} (hboundary : Boundary next before after) (hprovisioned : before.Provisioned)
    (hawaits : Awaits before policyClass leaf position) :
    ∃ entry, after.classes[policyClass]? = some entry ∧
      entry.positions[leaf]? = some position := by
  obtain ⟨entry, earlier, later, hentry, hstaged, hposition⟩ := hawaits
  obtain ⟨landed, hlanded, hlands⟩ := hboundary.lands policyClass entry hentry
  have hdistinct := hprovisioned.nodup_stagedFor policyClass
  rw [hstaged] at hlands hdistinct
  have hlater : leaf ∉ later := (List.nodup_cons.1 (List.nodup_append.1 hdistinct).2.1).1
  exact ⟨landed, hlanded, by rw [hlands.positions_eq hlater, hposition]⟩

end Promise

end Nymora.Protocol.Operator.AgoraState
