import Nymora.Protocol.Operator.Run.Transition

namespace Nymora.Protocol.Operator.AgoraState

open Nymora.Core
open Nymora.Crypto
open Nymora.Circuits
open Std (ExtTreeMap ExtTreeSet)

variable {depth : Nat} {before after state : AgoraState depth}

section Provision

-- Provision is about the classes and the staged admissions alone.
theorem Provisioned.congr (hprovisioned : before.Provisioned) (hclasses : after.classes = before.classes)
    (hstaged : after.staged.admissions = before.staged.admissions) : after.Provisioned where
  configured := by
    rw [hclasses, hstaged]
    exact hprovisioned.configured
  room := by
    rw [hclasses, hstaged]
    exact hprovisioned.room
  unlanded := by
    rw [hclasses, hstaged]
    exact hprovisioned.unlanded
  distinct := by
    rw [hstaged]
    exact hprovisioned.distinct

theorem Stageable.occupied_lt {policyClass : PolicyClass} {leaf : Commitment}
    {entry : ClassState depth} (hstageable : Stageable state policyClass leaf entry) :
    entry.occupied + (stagedFor state.staged.admissions policyClass).length <
      ClassState.CAPACITY depth := by
  have hroom := hstageable.room
  unfold remainingCapacity at hroom
  rw [hstageable.configured] at hroom
  simp only [← length_stagedFor] at hroom
  omega

-- Staging what is stageable keeps provision.
theorem Provisioned.stage {policyClass : PolicyClass} {leaf : Commitment}
    {entry : ClassState depth} (hprovisioned : state.Provisioned)
    (hstageable : Stageable state policyClass leaf entry) :
    (state.stage policyClass leaf).Provisioned where
  configured := by
    intro admission hadmission
    rcases List.mem_append.1 hadmission with hearlier | hnew
    · exact hprovisioned.configured admission hearlier
    · rw [List.mem_singleton.1 hnew]
      exact ExtTreeMap.mem_iff_isSome_getElem?.2
        (Option.isSome_iff_exists.2 ⟨entry, hstageable.configured⟩)
  room := by
    intro other otherEntry hother
    change stagedFor (state.staged.admissions ++ [(policyClass, leaf)]) other = [] ∨
      _ + (stagedFor (state.staged.admissions ++ [(policyClass, leaf)]) other).length ≤ _
    rw [stagedFor_append]
    by_cases heq : policyClass = other
    · subst heq
      have hentry : entry = otherEntry :=
        Option.some_inj.1 (hstageable.configured.symm.trans hother)
      have hlt := hstageable.occupied_lt
      have hone : stagedFor [(policyClass, leaf)] policyClass = [leaf] := by simp [stagedFor]
      rw [hone, List.length_append, List.length_singleton, ← hentry]
      exact Or.inr (by omega)
    · have hnone : stagedFor [(policyClass, leaf)] other = [] := by simp [stagedFor, heq]
      rw [hnone, List.append_nil]
      exact hprovisioned.room other otherEntry hother
  unlanded := by
    intro other otherEntry otherLeaf hother hstaged
    rcases List.mem_append.1 hstaged with hearlier | hnew
    · exact hprovisioned.unlanded other otherEntry otherLeaf hother hearlier
    · obtain ⟨rfl, rfl⟩ := Prod.mk.inj (List.mem_singleton.1 hnew)
      have hentry : entry = otherEntry :=
        Option.some_inj.1 (hstageable.configured.symm.trans hother)
      rw [← hentry]
      exact hstageable.unlanded
  distinct := by
    refine List.nodup_append.2 ⟨hprovisioned.distinct, List.nodup_singleton _, ?_⟩
    intro admission hadmission other hother heq
    rw [List.mem_singleton.1 hother] at heq
    rw [heq] at hadmission
    exact hstageable.unstaged hadmission

variable [Primitives]

-- A policy change touches no occupancy and no position.
theorem Provisioned.withPolicy {policyClass : PolicyClass} {entry : ClassState depth}
    {admissionThreshold governanceQuorum : UInt32} (hprovisioned : state.Provisioned)
    (hentry : state.classes[policyClass]? = some entry) :
    (state.withPolicy policyClass entry admissionThreshold governanceQuorum).Provisioned where
  configured := by
    intro admission hadmission
    exact ExtTreeMap.mem_insert.2 (Or.inr (hprovisioned.configured admission hadmission))
  room := by
    intro other otherEntry hother
    simp only [AgoraState.withPolicy, ExtTreeMap.getElem?_insert, Std.compare_eq_iff_eq] at hother
    by_cases heq : policyClass = other
    · subst heq
      rw [if_pos rfl, Option.some_inj] at hother
      rw [← hother]
      exact hprovisioned.room policyClass entry hentry
    · rw [if_neg heq] at hother
      exact hprovisioned.room other otherEntry hother
  unlanded := by
    intro other otherEntry leaf hother hstaged
    simp only [AgoraState.withPolicy, ExtTreeMap.getElem?_insert, Std.compare_eq_iff_eq] at hother
    by_cases heq : policyClass = other
    · subst heq
      rw [if_pos rfl, Option.some_inj] at hother
      rw [← hother]
      exact hprovisioned.unlanded policyClass entry leaf hentry hstaged
    · rw [if_neg heq] at hother
      exact hprovisioned.unlanded other otherEntry leaf hother hstaged
  distinct := hprovisioned.distinct

theorem Effect.provisioned {decision : Decision} {executed : Executed}
    (heffect : Effect before decision executed after) (hprovisioned : before.Provisioned) :
    after.Provisioned := by
  cases heffect with
  | policy hentry => exact hprovisioned.withPolicy hentry
  | revocation hboundary => exact provisioned_of_nil (by rw [hboundary.staged])
  | dissolution => exact provisioned_of_nil rfl
  | inboxHorizon => exact hprovisioned.congr rfl rfl

theorem Transition.provisioned {system : ProofSystem depth} {call : Call system}
    {outcome : Outcome} (htransition : Transition system before call outcome after)
    (hprovisioned : before.Provisioned) : after.Provisioned := by
  cases htransition with
  | vouchFinalize _ _ _ hstageable _ _ =>
      exact (hprovisioned.stage hstageable).congr rfl rfl
  | finalizeLost _ hstageable => exact (hprovisioned.stage hstageable).congr rfl rfl
  | migrate _ _ hstageable _ _ => exact (hprovisioned.stage hstageable).congr rfl rfl
  | migrateLost _ hstageable => exact hprovisioned.stage hstageable
  | execute _ heffect => exact heffect.provisioned (hprovisioned.congr rfl rfl)
  | advanceEpoch _ hboundary => exact provisioned_of_nil (by rw [hboundary.staged])
  | executeLost _ => exact provisioned_of_nil rfl
  | advanceLost _ => exact provisioned_of_nil rfl
  | _ => exact hprovisioned.congr rfl rfl

end Provision

section Course

variable [Primitives]

-- A change confined to what is open or staged and to the inbox maps.
structure Quiet (before after : AgoraState depth) : Prop where
  agora : after.agora = before.agora
  epoch : after.epoch = before.epoch
  governanceQuorum : after.governanceQuorum = before.governanceQuorum
  classes : after.classes = before.classes
  revocations : after.revocations = before.revocations
  spends : after.spends = before.spends
  history : after.history = before.history
  tagSecret : after.tagSecret = before.tagSecret
  statementSeed : after.statementSeed = before.statementSeed
  log : after.log = before.log
  dissolved : after.dissolved = before.dissolved
  revokedLeaves : after.revokedLeaves = before.revokedLeaves
  inboxHorizon : after.inboxHorizon = before.inboxHorizon

-- A state a change starts from: the state before the call, or the one in which execution has
-- consumed its proposal and staged its leaf.
structure Ready (before ready : AgoraState depth) : Prop where
  quiet : Quiet before ready
  admissions : ready.staged.admissions = before.staged.admissions
  spends : ready.staged.spends = before.staged.spends
  revocations : before.staged.revocations <+: ready.staged.revocations
  inboxes : ready.inboxes = before.inboxes
  stagedInboxes : ready.stagedInboxes = before.stagedInboxes

-- What a transition does to the trees, the sets and the settings, without its guards.
inductive Course (before : AgoraState depth) : AgoraState depth → Prop
  | quiet {after : AgoraState depth} (hquiet : Quiet before after) : Course before after
  | policy {ready : AgoraState depth} {policyClass : PolicyClass} {entry : ClassState depth}
      {admissionThreshold governanceQuorum : UInt32} (hready : Ready before ready)
      (hentry : ready.classes[policyClass]? = some entry) :
      Course before (ready.withPolicy policyClass entry admissionThreshold governanceQuorum)
  | dissolution {ready : AgoraState depth} (hready : Ready before ready) :
      Course before ready.dissolve
  | inboxHorizon {ready : AgoraState depth} {boundaries : UInt64} (hready : Ready before ready) :
      Course before { ready with inboxHorizon := boundaries }
  | boundary {ready after : AgoraState depth} {next : Epoch} (hlive : before.dissolved = false)
      (hready : Ready before ready) (hboundary : Boundary next ready after) : Course before after

omit [Primitives] in
theorem Ready.refl (state : AgoraState depth) : Ready state state where
  quiet := ⟨rfl, rfl, rfl, rfl, rfl, rfl, rfl, rfl, rfl, rfl, rfl, rfl, rfl⟩
  admissions := rfl
  spends := rfl
  revocations := List.prefix_rfl
  inboxes := rfl
  stagedInboxes := rfl

omit [Primitives] in
theorem ready_consume (state : AgoraState depth) (subject : SubjectId) :
    Ready state (state.consume subject) where
  quiet := ⟨rfl, rfl, rfl, rfl, rfl, rfl, rfl, rfl, rfl, rfl, rfl, rfl, rfl⟩
  admissions := rfl
  spends := rfl
  revocations := List.prefix_rfl
  inboxes := rfl
  stagedInboxes := rfl

omit [Primitives] in
theorem ready_stageRevocation (state : AgoraState depth) (subject : SubjectId)
    (leaf : Commitment) : Ready state ((state.consume subject).stageRevocation leaf) where
  quiet := ⟨rfl, rfl, rfl, rfl, rfl, rfl, rfl, rfl, rfl, rfl, rfl, rfl, rfl⟩
  admissions := rfl
  spends := rfl
  revocations := List.prefix_append _ _
  inboxes := rfl
  stagedInboxes := rfl

theorem Effect.course {subject : SubjectId} {decision : Decision} {executed : Executed}
    (hlive : before.dissolved = false)
    (heffect : Effect (before.consume subject) decision executed after) :
    Course before after := by
  cases heffect with
  | policy hentry => exact .policy (ready_consume _ _) hentry
  | revocation hboundary => exact .boundary hlive (ready_stageRevocation _ _ _) hboundary
  | dissolution => exact .dissolution (ready_consume _ _)
  | inboxHorizon => exact .inboxHorizon (ready_consume _ _)

theorem Transition.course {system : ProofSystem depth} {call : Call system} {outcome : Outcome}
    (htransition : Transition system before call outcome after) : Course before after := by
  cases htransition with
  | execute hcarried heffect => exact heffect.course hcarried.live
  | advanceEpoch hlive hboundary => exact .boundary hlive (Ready.refl _) hboundary
  | _ => exact .quiet ⟨rfl, rfl, rfl, rfl, rfl, rfl, rfl, rfl, rfl, rfl, rfl, rfl, rfl⟩

end Course

section Sound

-- What every reachable state satisfies: the staged admissions are provided for, the current
-- epoch's snapshot holds the roots as they stand, and no snapshot is of a later epoch.
structure Sound (state : AgoraState depth) : Prop where
  provisioned : state.Provisioned
  rooted : state.history[state.epoch.get]? = some state.rootsNow
  dated : ∀ number ∈ state.history, number ≤ state.epoch.get

theorem Quiet.rootsNow (hquiet : Quiet before after) : after.rootsNow = before.rootsNow := by
  simp only [AgoraState.rootsNow, hquiet.classes, hquiet.revocations, hquiet.spends]

theorem Quiet.rooted (hquiet : Quiet before after)
    (hrooted : before.history[before.epoch.get]? = some before.rootsNow) :
    after.history[after.epoch.get]? = some after.rootsNow := by
  rw [hquiet.history, hquiet.epoch, hquiet.rootsNow]
  exact hrooted

theorem Quiet.dated (hquiet : Quiet before after)
    (hdated : ∀ number ∈ before.history, number ≤ before.epoch.get) :
    ∀ number ∈ after.history, number ≤ after.epoch.get := by
  rw [hquiet.history, hquiet.epoch]
  exact hdated

theorem Fresh.sound {founding : Founding} (hfresh : Fresh founding state) : Sound state where
  provisioned := provisioned_of_nil (by rw [hfresh.staged])
  rooted := by
    rw [hfresh.history, hfresh.epoch]
    simp
  dated := by
    intro number hnumber
    rw [hfresh.history, ExtTreeMap.mem_insert, Std.compare_eq_iff_eq] at hnumber
    rw [hfresh.epoch]
    rcases hnumber with heq | hempty
    · exact Nat.le_of_eq heq.symm
    · simp at hempty

variable [Primitives]

theorem Boundary.epoch_get {next : Epoch} (hboundary : Boundary next before after) :
    after.epoch.get = before.epoch.get + 1 := by
  rw [hboundary.epoch]
  exact Epoch.get_of_next hboundary.following

-- The class roots do not depend on a class's policy.
theorem rootsNow_withPolicy {policyClass : PolicyClass} {entry : ClassState depth}
    {admissionThreshold governanceQuorum : UInt32}
    (hentry : state.classes[policyClass]? = some entry) :
    (state.withPolicy policyClass entry admissionThreshold governanceQuorum).rootsNow =
      state.rootsNow := by
  simp only [AgoraState.rootsNow, withPolicy, Snapshot.mk.injEq, and_true]
  apply ExtTreeMap.ext_getElem?
  intro other
  simp only [ExtTreeMap.getElem?_map', ExtTreeMap.getElem?_insert, Std.compare_eq_iff_eq]
  by_cases heq : policyClass = other
  · subst heq
    simp [hentry]
  · simp [heq]

theorem Course.rooted (hcourse : Course before after)
    (hrooted : before.history[before.epoch.get]? = some before.rootsNow) :
    after.history[after.epoch.get]? = some after.rootsNow := by
  cases hcourse with
  | quiet hquiet => exact hquiet.rooted hrooted
  | policy hready hentry =>
      have hcarried := hready.quiet.rooted hrooted
      rw [rootsNow_withPolicy hentry]
      exact hcarried
  | dissolution hready =>
      have hcarried := hready.quiet.rooted hrooted
      exact hcarried
  | inboxHorizon hready =>
      have hcarried := hready.quiet.rooted hrooted
      exact hcarried
  | boundary _ hready hboundary =>
      rw [hboundary.history, hboundary.epoch]
      exact ExtTreeMap.getElem?_insert_self

theorem Course.dated (hcourse : Course before after)
    (hdated : ∀ number ∈ before.history, number ≤ before.epoch.get) :
    ∀ number ∈ after.history, number ≤ after.epoch.get := by
  cases hcourse with
  | quiet hquiet => exact hquiet.dated hdated
  | policy hready _ =>
      have hcarried := hready.quiet.dated hdated
      exact hcarried
  | dissolution hready =>
      have hcarried := hready.quiet.dated hdated
      exact hcarried
  | inboxHorizon hready =>
      have hcarried := hready.quiet.dated hdated
      exact hcarried
  | boundary _ hready hboundary =>
      intro number hnumber
      have hnext := hboundary.epoch_get
      rw [hboundary.history, ExtTreeMap.mem_insert, Std.compare_eq_iff_eq,
        ← hboundary.epoch] at hnumber
      rcases hnumber with heq | hearlier
      · exact Nat.le_of_eq heq.symm
      · have hle := hready.quiet.dated hdated number hearlier
        omega

theorem Course.agora (hcourse : Course before after) : after.agora = before.agora := by
  cases hcourse with
  | quiet hquiet => exact hquiet.agora
  | policy hready _ => exact hready.quiet.agora
  | dissolution hready => exact hready.quiet.agora
  | inboxHorizon hready => exact hready.quiet.agora
  | boundary _ hready hboundary => exact hboundary.agora.trans hready.quiet.agora

theorem Course.epoch_le (hcourse : Course before after) : before.epoch.get ≤ after.epoch.get := by
  cases hcourse with
  | quiet hquiet => rw [hquiet.epoch]
  | policy hready _ => exact Nat.le_of_eq (congrArg Epoch.get hready.quiet.epoch).symm
  | dissolution hready => exact Nat.le_of_eq (congrArg Epoch.get hready.quiet.epoch).symm
  | inboxHorizon hready => exact Nat.le_of_eq (congrArg Epoch.get hready.quiet.epoch).symm
  | boundary _ hready hboundary =>
      have hnext := hboundary.epoch_get
      rw [hready.quiet.epoch] at hnext
      omega

-- No transition configures a class or changes who vouches into it.
theorem Course.voucherClass (hcourse : Course before after) {policyClass : PolicyClass}
    {later : ClassState depth} (hlater : after.classes[policyClass]? = some later) :
    ∃ entry, before.classes[policyClass]? = some entry ∧
      later.policy.voucherClass = entry.policy.voucherClass := by
  cases hcourse with
  | quiet hquiet => exact ⟨later, by rw [← hquiet.classes]; exact hlater, rfl⟩
  | @policy ready changed entry _ _ hready hentry =>
      simp only [withPolicy, ExtTreeMap.getElem?_insert, Std.compare_eq_iff_eq] at hlater
      rw [hready.quiet.classes] at hentry hlater
      by_cases heq : changed = policyClass
      · subst heq
        rw [if_pos rfl, Option.some_inj] at hlater
        exact ⟨entry, hentry, by rw [← hlater]⟩
      · rw [if_neg heq] at hlater
        exact ⟨later, hlater, rfl⟩
  | dissolution hready => exact ⟨later, by rw [← hready.quiet.classes]; exact hlater, rfl⟩
  | inboxHorizon hready => exact ⟨later, by rw [← hready.quiet.classes]; exact hlater, rfl⟩
  | @boundary ready _ _ _ hready hboundary =>
      rw [← hready.quiet.classes]
      cases hentry : ready.classes[policyClass]? with
      | none =>
          rw [hboundary.unconfigured policyClass hentry] at hlater
          cases hlater
      | some entry =>
          obtain ⟨landed, hlanded, hlands⟩ := hboundary.lands policyClass entry hentry
          obtain rfl : later = landed := Option.some_inj.1 (hlater.symm.trans hlanded)
          exact ⟨entry, rfl, by rw [hlands.policy_eq]⟩

theorem Transition.sound {system : ProofSystem depth} {call : Call system} {outcome : Outcome}
    (htransition : Transition system before call outcome after) (hsound : before.Sound) :
    after.Sound where
  provisioned := htransition.provisioned hsound.provisioned
  rooted := htransition.course.rooted hsound.rooted
  dated := htransition.course.dated hsound.dated

end Sound

section Induction

variable [Primitives] {system : ProofSystem depth} {created : AgoraState depth}

abbrev History (system : ProofSystem depth) : Type :=
  List (Runs.Event (AgoraState depth) (Call system) Outcome)

-- The events of a run and the state it ends in, for the runs of one created agora.
def Execution (system : ProofSystem depth) (created : AgoraState depth)
    (history : History system) (state : AgoraState depth) : Prop :=
  ∃ calls, history = Runs.events (step system) created calls ∧
    state = Runs.final (step system) created calls

-- What holds at the start and across each transition holds at the end of every run; the
-- invariant may speak of the history so far.
theorem execution_invariant {motive : History system → AgoraState depth → Prop}
    {history : History system} (hexecution : Execution system created history state)
    (hsound : created.Sound) (hstart : motive [] created)
    (hstep : ∀ (history : History system) (before after : AgoraState depth) (call : Call system)
      (outcome : Outcome), before.Sound → motive history before →
        Transition system before call outcome after →
          motive (history ++ [⟨before, call, outcome, after⟩]) after) :
    state.Sound ∧ motive history state := by
  obtain ⟨calls, rfl, rfl⟩ := hexecution
  induction calls using List.reverseRecOn with
  | nil => exact ⟨hsound, hstart⟩
  | append_singleton calls call ih =>
      obtain ⟨hready, hholds⟩ := ih
      have htransition := transition_of_step hready.provisioned call
      rw [Runs.events_concat, Runs.final_concat]
      exact ⟨htransition.sound hready, hstep _ _ _ _ _ hready hholds htransition⟩

end Induction

end Nymora.Protocol.Operator.AgoraState
