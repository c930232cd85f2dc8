import Nymora.Protocol.Operator.Run.Between

namespace Nymora.Protocol.Operator.AgoraState

open Nymora.Core
open Nymora.Accumulator
open Nymora.Crypto
open Nymora.Circuits
open Nymora.Proofs
open Method
open Std (ExtTreeMap ExtTreeSet)

variable {depth : Nat} {system : ProofSystem depth}

-- The calls that a membership proof decides.
def Proves : Call system → Prop
  | .vouchAttest .. | .approve .. | .redeemAccess .. | .migrate .. => True
  | _ => False

-- What such a call has to meet, with the roots its proof is checked against looked up.
def Meets (state : AgoraState depth) (lookup : PolicyClass → Except Rejection EpochRoots) :
    Call system → Prop
  | .vouchAttest session proof nullifier =>
      ∃ (opened : VouchSession) (entry : ClassState depth) (roots : EpochRoots),
        state.sessions[session]? = some opened ∧ state.classes[opened.target]? = some entry ∧
        lookup entry.policy.voucherClass = .ok roots ∧
        verifyVouch system proof state.agora state.epoch roots session.asBytes.toList nullifier ∧
        nullifier ∉ opened.nullifiers
  | .approve subject proof nullifier =>
      ∃ (proposal : Proposal) (roots : EpochRoots), state.proposals[subject]? = some proposal ∧
        lookup proposal.approvingClass = .ok roots ∧
        verifyPolicyApproval system proof state.agora state.epoch roots subject.asBytes.toList
          nullifier ∧
        nullifier ∉ proposal.approvals
  | .redeemAccess policyClass proof challenge =>
      challenge.asBytes ∈ state.challenges ∧ ∃ roots, lookup policyClass = .ok roots ∧
        verifyVerificationAccess system proof state.agora state.epoch roots
          challenge.asBytes.toList
  | .migrate policyClass proof spend successor _ =>
      truncateKey spend.asBytes ∉ state.spends.keys ∧ spend ∉ state.staged.spends ∧
        (∃ roots, lookup policyClass = .ok roots ∧
          verifyMigration system proof state.agora roots.policyClass roots.revocation spend
            successor) ∧
        (∃ entry, Stageable state policyClass successor entry) ∧ state.epoch.next ≠ none
  | _ => True

variable [Primitives] {before after created start state : AgoraState depth}
  {history : History system}

-- The epochs begun have snapshots and no others have, each with every configured class; the
-- snapshots stay as they were recorded, and the four proving calls are accepted on exactly the
-- roots recorded for their epoch. The gated methods serve exactly the epochs begun.
structure EpochFixed (genesis : Epoch) (created : AgoraState depth) (history : History system)
    (state : AgoraState depth) (epoch : Epoch) : Prop where
  begun : ∀ number, number ∈ state.history ↔
    genesis.get ≤ number ∧ number ≤ state.epoch.get
  kept : ∀ earlier later (middle : AgoraState depth), history = earlier ++ later →
    Execution system created earlier middle → Execution system middle later state →
      ∀ (number : Nat) (snapshot : Snapshot), middle.history[number]? = some snapshot →
        state.history[number]? = some snapshot
  checked : ∀ event ∈ history, Proves event.call →
    ((∃ reply, event.outcome = .ok reply) ↔ event.before.dissolved = false ∧
      Meets event.before (state.rootsIn event.before.epoch) event.call)
  roots : state.dissolved = false → ∀ policyClass,
    ((∃ roots after, rootsAt ⟨state.epoch⟩ policyClass epoch state = .ok roots after) ↔
      genesis.get ≤ epoch.get ∧ epoch.get ≤ state.epoch.get ∧ policyClass ∈ state.classes)
  attestation : state.dissolved = false → ∀ policyClass proof message nullifier,
    ((∃ accepted after, verifyAttestation system ⟨state.epoch⟩ policyClass epoch proof message
        nullifier state = .ok accepted after) ↔
      genesis.get ≤ epoch.get ∧ epoch.get ≤ state.epoch.get ∧ policyClass ∈ state.classes)
  tagKey : state.dissolved = false →
    ((∃ key after, tagKeyAt ⟨state.epoch⟩ epoch state = .ok key after) ↔
      genesis.get ≤ epoch.get ∧ epoch.get ≤ state.epoch.get)

-- No transition configures or drops a class.
theorem Course.mem_classes (hcourse : Course before after) {policyClass : PolicyClass} :
    policyClass ∈ after.classes ↔ policyClass ∈ before.classes := by
  cases hcourse with
  | quiet hquiet => rw [hquiet.classes]
  | @policy ready changed entry _ _ hready hentry =>
      rw [← hready.quiet.classes, withPolicy, ExtTreeMap.mem_insert, Std.compare_eq_iff_eq]
      constructor
      · rintro (rfl | hkept)
        · exact ExtTreeMap.mem_iff_isSome_getElem?.2 (by rw [hentry]; rfl)
        · exact hkept
      · exact Or.inr
  | dissolution hready => rw [← hready.quiet.classes, dissolve]
  | inboxHorizon hready => rw [← hready.quiet.classes]
  | @boundary ready _ _ _ hready hboundary =>
      rw [← hready.quiet.classes, ExtTreeMap.mem_iff_isSome_getElem?,
        ExtTreeMap.mem_iff_isSome_getElem?]
      cases hentry : ready.classes[policyClass]? with
      | none => rw [hboundary.unconfigured policyClass hentry]
      | some entry =>
          obtain ⟨landed, hlanded, _⟩ := hboundary.lands policyClass entry hentry
          rw [hlanded]
          simp

-- A step records at most the snapshot of the epoch it begins.
theorem Course.history_eq (hcourse : Course before after) :
    after.epoch = before.epoch ∧ after.history = before.history ∨
      after.epoch.get = before.epoch.get + 1 ∧
        after.history = before.history.insert after.epoch.get after.rootsNow := by
  cases hcourse with
  | quiet hquiet => exact Or.inl ⟨hquiet.epoch, hquiet.history⟩
  | policy hready _ => exact Or.inl ⟨hready.quiet.epoch, hready.quiet.history⟩
  | dissolution hready => exact Or.inl ⟨hready.quiet.epoch, hready.quiet.history⟩
  | inboxHorizon hready => exact Or.inl ⟨hready.quiet.epoch, hready.quiet.history⟩
  | boundary _ hready hboundary =>
      refine Or.inr ⟨?_, ?_⟩
      · rw [hboundary.epoch_get, hready.quiet.epoch]
      · rw [hboundary.history, hboundary.epoch, hready.quiet.history]

-- One snapshot for every epoch begun, each naming the configured classes.
structure Recorded (genesis : Epoch) (state : AgoraState depth) : Prop where
  begun : ∀ number, number ∈ state.history ↔
    genesis.get ≤ number ∧ number ≤ state.epoch.get
  since : genesis.get ≤ state.epoch.get
  named : ∀ (number : Nat) (snapshot : Snapshot), state.history[number]? = some snapshot →
    ∀ policyClass, policyClass ∈ snapshot.classRoots ↔ policyClass ∈ state.classes

omit [Primitives] in
theorem mem_rootsNow {policyClass : PolicyClass} :
    policyClass ∈ state.rootsNow.classRoots ↔ policyClass ∈ state.classes := by
  simp [rootsNow]

omit [Primitives] in
theorem Fresh.recorded {founding : Founding} (hfresh : Fresh founding created) :
    Recorded founding.genesis created where
  begun := by
    intro number
    rw [hfresh.history, ExtTreeMap.mem_insert, Std.compare_eq_iff_eq, hfresh.epoch]
    simp only [ExtTreeMap.not_mem_empty, or_false]
    omega
  since := by rw [hfresh.epoch]
  named := by
    intro number snapshot hsnapshot policyClass
    rw [hfresh.history] at hsnapshot
    simp only [ExtTreeMap.getElem?_insert, Std.compare_eq_iff_eq] at hsnapshot
    by_cases heq : founding.genesis.get = number
    · rw [if_pos heq, Option.some_inj] at hsnapshot
      rw [← hsnapshot]
      exact mem_rootsNow
    · rw [if_neg heq] at hsnapshot
      simp at hsnapshot

theorem Course.recorded {genesis : Epoch} (hcourse : Course before after)
    (hrecorded : Recorded genesis before) : Recorded genesis after := by
  rcases hcourse.history_eq with ⟨hepoch, hhistory⟩ | ⟨hepoch, hhistory⟩
  · refine ⟨?_, ?_, ?_⟩
    · rw [hhistory, hepoch]
      exact hrecorded.begun
    · rw [hepoch]
      exact hrecorded.since
    · intro number snapshot hsnapshot policyClass
      rw [hhistory] at hsnapshot
      rw [hcourse.mem_classes]
      exact hrecorded.named number snapshot hsnapshot policyClass
  · have hsince := hrecorded.since
    refine ⟨?_, by omega, ?_⟩
    · intro number
      rw [hhistory, ExtTreeMap.mem_insert, Std.compare_eq_iff_eq, hrecorded.begun number]
      omega
    · intro number snapshot hsnapshot policyClass
      rw [hhistory] at hsnapshot
      simp only [ExtTreeMap.getElem?_insert, Std.compare_eq_iff_eq] at hsnapshot
      by_cases heq : after.epoch.get = number
      · rw [if_pos heq, Option.some_inj] at hsnapshot
        rw [← hsnapshot]
        exact mem_rootsNow
      · rw [if_neg heq] at hsnapshot
        rw [hcourse.mem_classes]
        exact hrecorded.named number snapshot hsnapshot policyClass

-- A recorded snapshot is never recorded again.
theorem Course.snapshot_kept (hcourse : Course before after) (hsound : before.Sound) {number : Nat}
    {snapshot : Snapshot} (hsnapshot : before.history[number]? = some snapshot) :
    after.history[number]? = some snapshot := by
  rcases hcourse.history_eq with ⟨_, hhistory⟩ | ⟨hepoch, hhistory⟩
  · rw [hhistory]
    exact hsnapshot
  · have hdated := hsound.dated number
      (ExtTreeMap.mem_iff_isSome_getElem?.2 (by rw [hsnapshot]; rfl))
    have hne : after.epoch.get ≠ number := by omega
    rw [hhistory]
    simp only [ExtTreeMap.getElem?_insert, Std.compare_eq_iff_eq]
    rw [if_neg hne]
    exact hsnapshot

theorem Execution.recorded {genesis : Epoch} (hexecution : Execution system start history state)
    (hsound : start.Sound) (hrecorded : Recorded genesis start) : Recorded genesis state :=
  hexecution.preserves hsound hrecorded fun _ _ _ hcourse hearlier => hcourse.recorded hearlier

theorem Execution.snapshot_kept (hexecution : Execution system start history state)
    (hsound : start.Sound) {number : Nat} {snapshot : Snapshot}
    (hsnapshot : start.history[number]? = some snapshot) :
    state.history[number]? = some snapshot :=
  hexecution.preserves (motive := fun current => current.history[number]? = some snapshot) hsound
    hsnapshot fun _ _ hbefore hcourse hkept => hcourse.snapshot_kept hbefore hkept

-- Roots of an epoch begun stay what they were.
theorem Execution.rootsIn_kept (hexecution : Execution system start history state)
    (hsound : start.Sound) {epoch : Epoch} (hbegun : epoch.get ∈ start.history) :
    state.rootsIn epoch = start.rootsIn epoch := by
  obtain ⟨snapshot, hsnapshot⟩ :=
    Option.isSome_iff_exists.1 (ExtTreeMap.mem_iff_isSome_getElem?.1 hbegun)
  funext policyClass
  simp only [rootsIn, hsnapshot, hexecution.snapshot_kept hsound hsnapshot]

-- A proving call is accepted exactly where it meets its checks against the current epoch's roots.
theorem perform_eq_ok_iff {call : Call system} (hproves : Proves call) :
    (∃ reply after, perform system call state = .ok reply after) ↔
      state.dissolved = false ∧ Meets state (state.rootsIn state.epoch) call := by
  cases call with
  | vouchAttest session proof nullifier =>
      simp only [perform, bind_pure_eq_ok, vouchAttest_eq_ok, Meets]
      constructor
      · rintro ⟨_, _, _, ⟨hlive, opened, entry, roots, hopened, hentry, hroots, hproof, hfresh, _⟩,
          _⟩
        exact ⟨hlive, opened, entry, roots, hopened, hentry, hroots, hproof, hfresh⟩
      · rintro ⟨hlive, opened, entry, roots, hopened, hentry, hroots, hproof, hfresh⟩
        exact ⟨_, _, .mk, ⟨hlive, opened, entry, roots, hopened, hentry, hroots, hproof, hfresh,
          rfl⟩, rfl⟩
  | approve subject proof nullifier =>
      simp only [perform, bind_pure_eq_ok, approve_eq_ok, Meets]
      constructor
      · rintro ⟨_, _, _, ⟨hlive, proposal, roots, hraised, hroots, hproof, hfresh, _⟩, _⟩
        exact ⟨hlive, proposal, roots, hraised, hroots, hproof, hfresh⟩
      · rintro ⟨hlive, proposal, roots, hraised, hroots, hproof, hfresh⟩
        exact ⟨_, _, .mk, ⟨hlive, proposal, roots, hraised, hroots, hproof, hfresh, rfl⟩, rfl⟩
  | redeemAccess policyClass proof challenge =>
      simp only [perform, bind_pure_eq_ok, redeemAccess_eq_ok, Meets]
      constructor
      · rintro ⟨_, _, _, ⟨hlive, hissued, hproven, _, _⟩, _⟩
        exact ⟨hlive, hissued, hproven⟩
      · rintro ⟨hlive, hissued, hproven⟩
        exact ⟨_, _, _, ⟨hlive, hissued, hproven, rfl, rfl⟩, rfl⟩
  | migrate policyClass proof spend successor inbox =>
      simp only [perform, bind_pure_eq_ok, migrate_eq_ok, Meets]
      constructor
      · rintro ⟨_, _, _, ⟨hlive, entry, roots, hmigratable, hstageable, hnext, _, _⟩, _⟩
        exact ⟨hlive, hmigratable.unspent, hmigratable.unstagedSpend,
          ⟨roots, hmigratable.rooted, hmigratable.accepted⟩, ⟨entry, hstageable⟩, by simp [hnext]⟩
      · rintro ⟨hlive, hunspent, hunstaged, ⟨roots, hroots, hproof⟩, ⟨entry, hstageable⟩, hnext⟩
        obtain ⟨next, hnext⟩ := Option.ne_none_iff_exists'.1 hnext
        exact ⟨_, _, ⟨next, _⟩, ⟨hlive, entry, roots, ⟨hunspent, hunstaged, hroots, hproof⟩,
          hstageable, hnext, rfl, rfl⟩, rfl⟩
  | _ => exact absurd hproves id

-- Roots can be read exactly for the epochs begun and the configured classes.
omit [Primitives] in
theorem Recorded.rootsIn_isOk {genesis epoch : Epoch} {policyClass : PolicyClass}
    (hrecorded : Recorded genesis state) :
    (∃ roots, state.rootsIn epoch policyClass = .ok roots) ↔
      genesis.get ≤ epoch.get ∧ epoch.get ≤ state.epoch.get ∧ policyClass ∈ state.classes := by
  simp only [rootsIn_eq_ok]
  constructor
  · rintro ⟨_, snapshot, root, hsnapshot, hroot, rfl⟩
    have hbegun := (hrecorded.begun epoch.get).1
      (ExtTreeMap.mem_iff_isSome_getElem?.2 (by rw [hsnapshot]; rfl))
    exact ⟨hbegun.1, hbegun.2, (hrecorded.named _ _ hsnapshot policyClass).1
      (ExtTreeMap.mem_iff_isSome_getElem?.2 (by rw [hroot]; rfl))⟩
  · rintro ⟨hsince, hpast, hconfigured⟩
    obtain ⟨snapshot, hsnapshot⟩ := Option.isSome_iff_exists.1
      (ExtTreeMap.mem_iff_isSome_getElem?.1 ((hrecorded.begun epoch.get).2 ⟨hsince, hpast⟩))
    obtain ⟨root, hroot⟩ := Option.isSome_iff_exists.1
      (ExtTreeMap.mem_iff_isSome_getElem?.1
        ((hrecorded.named _ _ hsnapshot policyClass).2 hconfigured))
    exact ⟨_, snapshot, root, hsnapshot, hroot, rfl⟩

-- The tag key has no lower bound of its own: it is served for the epochs before the genesis too.
theorem history_is_epoch_fixed {founding : Founding} {tagSecret statementEntropy : Bytes 32}
    {logSeed : Option (Bytes 32)}
    (hcreate : create founding tagSecret statementEntropy logSeed = .ok created)
    (hexecution : Execution system created history state) (epoch : Epoch) :
    EpochFixed founding.genesis created history state epoch ↔
      state.dissolved = true ∨ founding.genesis.get ≤ epoch.get := by
  have hfresh := fresh_of_create hcreate
  have hrecorded := hexecution.recorded hfresh.sound hfresh.recorded
  constructor
  · intro hfixed
    by_contra hcondition
    obtain ⟨hlive, hearly⟩ := not_or.1 hcondition
    have hlive := Bool.eq_false_iff.2 hlive
    have hsince := hrecorded.since
    have hserved : tagKeyAt ⟨state.epoch⟩ epoch state =
        .ok (deriveTagKey state.tagSecret.toList state.agora epoch) state :=
      tagKeyAt_eq_ok.2 ⟨hlive, rfl, by omega, rfl, rfl⟩
    exact hearly ((hfixed.tagKey hlive).1 ⟨_, _, hserved⟩).1
  · intro hcondition
    refine ⟨hrecorded.begun, ?_, ?_, ?_, ?_, ?_⟩
    · intro earlier later middle _ hearlier hlater number snapshot hsnapshot
      exact hlater.snapshot_kept (hearlier.sound hfresh.sound) hsnapshot
    · intro event hevent hproves
      obtain ⟨earlier, later, rfl⟩ := List.append_of_mem hevent
      have hperformed := hexecution.performed
      obtain ⟨hearlier, hbefore, htransition, hafter, hlater⟩ := hexecution.at_event hfresh.sound
      have hrest := hexecution.single.join hlater
      have hbegun := hearlier.recorded hfresh.sound hfresh.recorded
      have hpresent : event.before.epoch.get ∈ event.before.history :=
        (hbegun.begun _).2 ⟨hbegun.since, Nat.le_refl _⟩
      have hkept := hrest.rootsIn_kept hbefore hpresent
      rw [hkept, ← perform_eq_ok_iff hproves]
      constructor
      · rintro ⟨reply, hreply⟩
        rw [hreply] at hperformed
        exact ⟨reply, event.after, step_eq_ok.1 hperformed⟩
      · rintro ⟨reply, after, hreply⟩
        have hstep := step_eq_ok.2 hreply
        rw [hperformed] at hstep
        exact ⟨reply, (Prod.mk.inj hstep).1⟩
    · intro hlive policyClass
      simp only [rootsAt_eq_ok, ← hrecorded.rootsIn_isOk]
      constructor
      · rintro ⟨roots, _, _, _, hroots, _⟩
        exact ⟨roots, hroots⟩
      · rintro ⟨roots, hroots⟩
        exact ⟨roots, state, hlive, trivial, hroots, rfl⟩
    · intro hlive policyClass proof message nullifier
      simp only [verifyAttestation_eq_ok, ← hrecorded.rootsIn_isOk]
      constructor
      · rintro ⟨_, _, _, _, ⟨roots, hroots, _⟩, _⟩
        exact ⟨roots, hroots⟩
      · rintro ⟨roots, hroots⟩
        exact ⟨_, state, hlive, trivial, ⟨roots, hroots, rfl⟩, rfl⟩
    · intro hlive
      simp only [tagKeyAt_eq_ok]
      constructor
      · rintro ⟨_, _, _, _, hpast, _⟩
        refine ⟨hcondition.resolve_left ?_, hpast⟩
        rw [hlive]
        decide
      · rintro ⟨_, hpast⟩
        exact ⟨_, state, hlive, trivial, hpast, rfl, rfl⟩

end Nymora.Protocol.Operator.AgoraState

namespace Nymora.Protocol.Operator.AgoraState.Sample

open Nymora.Core
open Nymora.Crypto
open scoped Nymora.Crypto.Reference

theorem history_is_epoch_fixed_advanced :
    EpochFixed founding.genesis start (played (accepting 2) start [.advanceEpoch])
        (reached (accepting 2) start [.advanceEpoch]) founding.genesis ↔
      (reached (accepting 2) start [.advanceEpoch]).dissolved = true ∨
        founding.genesis.get ≤ founding.genesis.get :=
  history_is_epoch_fixed create_start (execution_played [.advanceEpoch]) founding.genesis

-- The same agora, founded an epoch later.
def lateFounding : Founding := { founding with genesis := ⟨1, by decide⟩ }

theorem founds_late :
    (create lateFounding entropy entropy none : Except _ (AgoraState 2)).toOption.isSome := by
  decide +kernel

def lateStart : AgoraState 2 := (create lateFounding entropy entropy none).toOption.get founds_late

-- The tag key of an epoch before the agora existed is served.
theorem early_tag_key_is_served :
    ¬ EpochFixed lateFounding.genesis lateStart (played (accepting 2) lateStart []) lateStart
      ⟨0, by decide⟩ := by
  intro hfixed
  have hlive : lateStart.dissolved = false := by decide +kernel
  have hserved : tagKeyAt ⟨lateStart.epoch⟩ ⟨0, by decide⟩ lateStart =
      .ok (deriveTagKey lateStart.tagSecret.toList lateStart.agora ⟨0, by decide⟩) lateStart :=
    tagKeyAt_eq_ok.2 ⟨hlive, rfl, Nat.zero_le _, rfl, rfl⟩
  exact absurd ((hfixed.tagKey hlive).1 ⟨_, _, hserved⟩).1 (by decide)

end Nymora.Protocol.Operator.AgoraState.Sample
