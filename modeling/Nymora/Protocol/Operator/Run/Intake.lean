import Nymora.Protocol.Operator.Run.Dissolution

namespace Nymora.Protocol.Operator.AgoraState

open Nymora.Core
open Nymora.Crypto
open Nymora.Circuits
open Method
open Runs
open Std (ExtTreeMap ExtTreeSet)

variable {depth : Nat} {system : ProofSystem depth} {leaf : Commitment} {policyClass : PolicyClass}

-- The two methods a candidate reaches.
def IsIntake (call : Call system) : Prop :=
  (∃ commitment inbox, call = .credentialsInit commitment inbox) ∨
    ∃ candidate target idEntropy, call = .startVouch candidate target idEntropy

-- What the intake reads of two states one of which holds a leaf in a class: all of it the same,
-- except that the leaf has a position there in one of them.
structure Alike (leaf : Commitment) (policyClass : PolicyClass)
    (without landed : AgoraState depth) : Prop where
  dissolved : landed.dissolved = without.dissolved
  staged : landed.staged = without.staged
  pending : landed.pending = without.pending
  elsewhere : ∀ other ≠ policyClass, landed.classes[other]? = without.classes[other]?
  entered : ∃ before after, without.classes[policyClass]? = some before ∧
    landed.classes[policyClass]? = some after ∧ after.policy = before.policy ∧
    after.version = before.version ∧ leaf ∉ before.positions ∧
    ∀ other, other ∈ after.positions ↔ other = leaf ∨ other ∈ before.positions
  room : without.remainingCapacity policyClass ≠ 0 ∧ landed.remainingCapacity policyClass ≠ 0

-- Two states that differ only in whether a leaf has landed in a class: same agora, epoch and
-- configuration, room left in the class, no open session.
structure DifferByLanding (leaf : Commitment) (policyClass : PolicyClass)
    (without landed : AgoraState depth) : Prop extends Alike leaf policyClass without landed where
  agora : landed.agora = without.agora
  epoch : landed.epoch = without.epoch
  governanceQuorum : landed.governanceQuorum = without.governanceQuorum
  inboxHorizon : landed.inboxHorizon = without.inboxHorizon
  sessions : without.sessions = ∅ ∧ landed.sessions = ∅

-- A session is asked for the leaf in the class while the leaf is pending: it was pending at first,
-- or the caller has announced it.
def Probes (leaf : Commitment) (policyClass : PolicyClass) (state : AgoraState depth)
    (calls : List (Call system)) : Prop :=
  state.dissolved = false ∧ ∃ earlier idEntropy later,
    calls = earlier ++ .startVouch leaf policyClass idEntropy :: later ∧
      (leaf ∈ state.pending ∨ ∃ inbox, .credentialsInit leaf inbox ∈ earlier)

-- What a session needs to open.
def Startable (state : AgoraState depth) (candidate : Commitment) (target : PolicyClass) : Prop :=
  state.dissolved = false ∧ candidate ∈ state.pending ∧
    (∃ entry, state.classes[target]? = some entry ∧ candidate ∉ entry.positions) ∧
    state.remainingCapacity target ≠ 0

section Steps

variable [Primitives] {state without landed : AgoraState depth} {candidate : Commitment}
  {target : PolicyClass} {idEntropy : Bytes 32} {call : Call system} {calls : List (Call system)}

-- What the calls of a run answer, in order.
def replies (system : ProofSystem depth) (state : AgoraState depth) (calls : List (Call system)) :
    List Outcome := (events (step system) state calls).map Event.outcome

omit [Primitives] in
theorem startVouch_refusal {refusal : ProtocolError} {after : AgoraState depth}
    (herror : startVouch candidate target idEntropy state = .error refusal after) :
    refusal = .Rejected := by
  simp only [startVouch, checkLive_bind_eq_error, translating_bind_eq_error, get_bind,
    ensure_bind_eq_error, classEntry_bind_eq_error, ensure_eq_error, modify_bind, pure_eq_error,
    and_false, exists_false, or_false, Rejection.into] at herror
  grind

theorem step_startVouch_of_startable (hstarts : state.Startable candidate target) :
    step system state (.startVouch candidate target idEntropy) =
      (.ok (.session (.fromBytes idEntropy)),
        state.withSession (.fromBytes idEntropy) ⟨candidate, target, ∅⟩) := by
  obtain ⟨hlive, hpending, hentry, hroom⟩ := hstarts
  rw [step_eq_ok, perform, bind_pure_eq_ok]
  exact ⟨_, startVouch_eq_ok.2 ⟨hlive, hpending, hentry, hroom, rfl, rfl⟩, rfl⟩

theorem step_startVouch_of_not_startable (hcloses : ¬ state.Startable candidate target) :
    step system state (.startVouch candidate target idEntropy) = (.error .Rejected, state) := by
  rw [step_eq_error, perform, bind_pure_eq_error]
  cases hstart : startVouch candidate target idEntropy state with
  | ok id after =>
      obtain ⟨hlive, hpending, hentry, hroom, _⟩ := startVouch_eq_ok.1 hstart
      exact absurd ⟨hlive, hpending, hentry, hroom⟩ hcloses
  | error refusal after => rw [startVouch_refusal hstart, startVouch_eq_error hstart]

theorem step_credentialsInit {commitment : Commitment} {inbox : InboxPublicKey}
    (hlive : state.dissolved = false) :
    step system state (.credentialsInit commitment inbox) = (.ok .recorded, { state with
      pending := state.pending.insert commitment
      stagedInboxes := state.stagedInboxes.insert commitment inbox }) := by
  rw [step_eq_ok, perform, bind_pure_eq_ok]
  exact ⟨.mk, credentialsInit_eq_ok.2 ⟨hlive, rfl⟩, rfl⟩

end Steps

namespace Alike

variable {without landed : AgoraState depth} {candidate : Commitment} {target : PolicyClass}

theorem remainingCapacity_eq (halike : Alike leaf policyClass without landed)
    (hother : target ≠ policyClass) :
    landed.remainingCapacity target = without.remainingCapacity target := by
  unfold remainingCapacity
  rw [halike.elsewhere target hother, halike.staged]

-- A session opens on both sides or on neither, unless it is for the leaf in the class.
theorem startable_iff (halike : Alike leaf policyClass without landed)
    (hother : ¬ (candidate = leaf ∧ target = policyClass)) :
    landed.Startable candidate target ↔ without.Startable candidate target := by
  unfold Startable
  rw [halike.dissolved, halike.pending]
  by_cases htarget : target = policyClass
  · subst htarget
    have hcandidate : candidate ≠ leaf := fun heq => hother ⟨heq, rfl⟩
    obtain ⟨before, after, hbefore, hafter, _, _, _, hpositions⟩ := halike.entered
    have hentered : (∃ entry, landed.classes[target]? = some entry ∧ candidate ∉ entry.positions) ↔
        ∃ entry, without.classes[target]? = some entry ∧ candidate ∉ entry.positions := by
      rw [hbefore, hafter]
      simp [hpositions, hcandidate]
    rw [hentered]
    simp only [ne_eq, halike.room.1, halike.room.2]
  · rw [halike.elsewhere target htarget, halike.remainingCapacity_eq htarget]

theorem not_startable (halike : Alike leaf policyClass without landed) :
    ¬ landed.Startable leaf policyClass := by
  rintro ⟨_, _, ⟨entry, hentry, hunlanded⟩, _⟩
  obtain ⟨_, after, _, hafter, _, _, _, hpositions⟩ := halike.entered
  obtain rfl := Option.some.inj (hentry.symm.trans hafter)
  exact hunlanded ((hpositions leaf).2 (.inl rfl))

theorem startable_leaf (halike : Alike leaf policyClass without landed)
    (hlive : without.dissolved = false) (hpending : leaf ∈ without.pending) :
    without.Startable leaf policyClass := by
  obtain ⟨before, _, hbefore, _, _, _, hunlanded, _⟩ := halike.entered
  exact ⟨hlive, hpending, ⟨before, hbefore, hunlanded⟩, halike.room.1⟩

theorem withSession (halike : Alike leaf policyClass without landed) (id other : SessionId)
    (opened begun : VouchSession) :
    Alike leaf policyClass (without.withSession id opened) (landed.withSession other begun) :=
  ⟨halike.dissolved, halike.staged, halike.pending, halike.elsewhere, halike.entered, halike.room⟩

variable [Primitives] {call : Call system} {calls : List (Call system)}

-- One call of the intake keeps the states alike, and is answered alike unless it asks for the
-- leaf in the class.
theorem step (halike : Alike leaf policyClass without landed) (hintake : IsIntake call) :
    Alike leaf policyClass (AgoraState.step system without call).2
        (AgoraState.step system landed call).2 ∧
      ((AgoraState.step system without call).1 = (AgoraState.step system landed call).1 ∨
        without.dissolved = false ∧ leaf ∈ without.pending ∧
          ∃ idEntropy, call = .startVouch leaf policyClass idEntropy ∧
            (AgoraState.step system without call).1 = .ok (.session (.fromBytes idEntropy)) ∧
            (AgoraState.step system landed call).1 = .error .Rejected) := by
  by_cases hdissolved : without.dissolved = true
  · rw [step_of_dissolved hdissolved, step_of_dissolved (halike.dissolved.trans hdissolved)]
    exact ⟨halike, .inl rfl⟩
  have hlive : without.dissolved = false := Bool.eq_false_iff.2 hdissolved
  rcases hintake with ⟨commitment, inbox, rfl⟩ | ⟨candidate, target, idEntropy, rfl⟩
  · rw [step_credentialsInit hlive, step_credentialsInit (halike.dissolved.trans hlive)]
    refine ⟨?_, .inl rfl⟩
    exact ⟨halike.dissolved, halike.staged, congrArg (·.insert commitment) halike.pending,
      halike.elsewhere, halike.entered, halike.room⟩
  by_cases hprobe : candidate = leaf ∧ target = policyClass
  · obtain ⟨rfl, rfl⟩ := hprobe
    rw [step_startVouch_of_not_startable halike.not_startable]
    by_cases hpending : candidate ∈ without.pending
    · rw [step_startVouch_of_startable (halike.startable_leaf hlive hpending)]
      refine ⟨?_, .inr ⟨hlive, hpending, idEntropy, rfl, rfl, rfl⟩⟩
      exact ⟨halike.dissolved, halike.staged, halike.pending, halike.elsewhere, halike.entered,
        halike.room⟩
    · have hcloses : ¬ without.Startable candidate target := fun hstarts => hpending hstarts.2.1
      rw [step_startVouch_of_not_startable hcloses]
      exact ⟨halike, .inl rfl⟩
  · have hiff := halike.startable_iff hprobe
    by_cases hstarts : without.Startable candidate target
    · rw [step_startVouch_of_startable hstarts, step_startVouch_of_startable (hiff.2 hstarts)]
      exact ⟨halike.withSession _ _ _ _, .inl rfl⟩
    · rw [step_startVouch_of_not_startable hstarts,
        step_startVouch_of_not_startable fun hlanded => hstarts (hiff.1 hlanded)]
      exact ⟨halike, .inl rfl⟩

theorem final (halike : Alike leaf policyClass without landed)
    (hintake : ∀ call ∈ calls, IsIntake call) :
    Alike leaf policyClass (Runs.final (AgoraState.step system) without calls)
      (Runs.final (AgoraState.step system) landed calls) := by
  induction calls generalizing without landed with
  | nil => exact halike
  | cons call calls ih =>
      obtain ⟨hcall, hrest⟩ := List.forall_mem_cons.1 hintake
      exact ih (halike.step hcall).1 hrest

end Alike

section Probing

variable [Primitives] {state without landed : AgoraState depth} {call : Call system}
  {calls : List (Call system)}

theorem intake_pending (leaf : Commitment) (hintake : IsIntake call)
    (hlive : state.dissolved = false) :
    (step system state call).2.dissolved = false ∧
      (leaf ∈ (step system state call).2.pending ↔
        leaf ∈ state.pending ∨ ∃ inbox, call = .credentialsInit leaf inbox) := by
  rcases hintake with ⟨commitment, inbox, rfl⟩ | ⟨candidate, target, idEntropy, rfl⟩
  · rw [step_credentialsInit hlive]
    refine ⟨hlive, ?_⟩
    simp only [ExtTreeSet.mem_insert, Std.compare_eq_iff_eq, Call.credentialsInit.injEq,
      exists_and_left, exists_eq', and_true]
    exact or_comm
  · have hnone : ∀ inbox, (Call.startVouch candidate target idEntropy : Call system) ≠
        .credentialsInit leaf inbox := fun _ heq => (nomatch heq)
    simp only [hnone, exists_false, or_false]
    by_cases hstarts : state.Startable candidate target
    · rw [step_startVouch_of_startable hstarts]
      exact ⟨hlive, Iff.rfl⟩
    · rw [step_startVouch_of_not_startable hstarts]
      exact ⟨hlive, Iff.rfl⟩

-- A run probes with its first call, or with the rest of it.
theorem probes_cons (hintake : IsIntake call) :
    Probes leaf policyClass state (call :: calls) ↔
      (state.dissolved = false ∧ leaf ∈ state.pending ∧
        ∃ idEntropy, call = .startVouch leaf policyClass idEntropy) ∨
      Probes leaf policyClass (step system state call).2 calls := by
  constructor
  · rintro ⟨hlive, earlier, idEntropy, later, hcalls, hpending⟩
    obtain ⟨hstill, hafter⟩ := intake_pending leaf hintake hlive
    cases earlier with
    | nil =>
        obtain ⟨rfl, rfl⟩ := List.cons.inj hcalls
        exact .inl ⟨hlive, hpending.resolve_right (by simp), idEntropy, rfl⟩
    | cons first earlier =>
        obtain ⟨rfl, rfl⟩ := List.cons.inj hcalls
        refine .inr ⟨hstill, earlier, idEntropy, later, rfl, ?_⟩
        rcases hpending with hpending | ⟨inbox, hmem⟩
        · exact .inl (hafter.2 (.inl hpending))
        · rcases List.mem_cons.1 hmem with hfirst | hearlier
          · exact .inl (hafter.2 (.inr ⟨inbox, hfirst.symm⟩))
          · exact .inr ⟨inbox, hearlier⟩
  · rintro (⟨hlive, hpending, idEntropy, rfl⟩ |
      ⟨hstill, earlier, idEntropy, later, rfl, hpending⟩)
    · exact ⟨hlive, [], idEntropy, calls, rfl, .inl hpending⟩
    · have hlive : state.dissolved = false := by
        by_contra hdissolved
        rw [step_of_dissolved (by simpa using hdissolved)] at hstill
        exact hdissolved hstill
      refine ⟨hlive, call :: earlier, idEntropy, later, rfl, ?_⟩
      rcases hpending with hpending | ⟨inbox, hmem⟩
      · rcases (intake_pending leaf hintake hlive).2.1 hpending with hbefore | ⟨inbox, rfl⟩
        · exact .inl hbefore
        · exact .inr ⟨inbox, List.mem_cons_self⟩
      · exact .inr ⟨inbox, List.mem_cons_of_mem _ hmem⟩

theorem replies_eq_iff (halike : Alike leaf policyClass without landed)
    (hintake : ∀ call ∈ calls, IsIntake call) :
    replies system without calls = replies system landed calls ↔
      ¬ Probes leaf policyClass without calls := by
  induction calls generalizing without landed with
  | nil =>
      simp only [replies, events_nil, true_iff]
      rintro ⟨_, earlier, _, _, hcalls, _⟩
      cases earlier <;> cases hcalls
  | cons call calls ih =>
      obtain ⟨hcall, hrest⟩ := List.forall_mem_cons.1 hintake
      obtain ⟨hnext, houtcome⟩ := halike.step hcall
      have hlater := ih hnext hrest
      simp only [replies, events_cons, List.map_cons, List.cons.injEq] at hlater ⊢
      rw [probes_cons hcall, hlater, not_or]
      refine and_congr_left fun _ => ?_
      constructor
      · rintro hsame ⟨hlive, hpending, idEntropy, rfl⟩
        have hopened : (step system without (.startVouch leaf policyClass idEntropy)).1 =
            .ok (.session (.fromBytes idEntropy)) := by
          rw [step_startVouch_of_startable (halike.startable_leaf hlive hpending)]
        have hrefused : (step system landed (.startVouch leaf policyClass idEntropy)).1 =
            .error .Rejected := by
          rw [step_startVouch_of_not_startable halike.not_startable]
        exact nomatch hopened.symm.trans (Eq.trans hsame hrefused)
      · intro hquiet
        rcases houtcome with hsame | ⟨hlive, hpending, idEntropy, hprobe, _⟩
        · exact hsame
        · exact absurd ⟨hlive, hpending, idEntropy, hprobe⟩ hquiet

-- The intake answers two states that differ by a landing alike for every run that does not ask for
-- the landed leaf in its class while it is pending. Those calls, and no others, are answered
-- differently: accepted where the leaf has not landed, refused where it has.
theorem intake_tells_landing_iff (hdiffer : DifferByLanding leaf policyClass without landed)
    (hintake : ∀ call ∈ calls, IsIntake call) :
    (replies system without calls = replies system landed calls ↔
      ¬ Probes leaf policyClass without calls) ∧
    ∀ earlier call later, calls = earlier ++ call :: later →
      (step system (final (step system) without earlier) call).1 =
          (step system (final (step system) landed earlier) call).1 ∨
        ∃ idEntropy, call = .startVouch leaf policyClass idEntropy ∧
          (step system (final (step system) without earlier) call).1 =
            .ok (.session (.fromBytes idEntropy)) ∧
          (step system (final (step system) landed earlier) call).1 = .error .Rejected := by
  refine ⟨replies_eq_iff hdiffer.toAlike hintake, ?_⟩
  rintro earlier call later rfl
  have halike : Alike leaf policyClass (final (step system) without earlier)
      (final (step system) landed earlier) :=
    hdiffer.toAlike.final fun before hbefore => hintake before (List.mem_append_left _ hbefore)
  rcases (halike.step (hintake call (List.mem_append_right _ List.mem_cons_self))).2 with
    hsame | ⟨_, _, hprobe⟩
  · exact .inl hsame
  · exact .inr hprobe

end Probing

end Nymora.Protocol.Operator.AgoraState

namespace Nymora.Protocol.Operator.AgoraState.Sample

open Nymora.Core
open Nymora.Crypto
open Std (ExtTreeMap)
open scoped Nymora.Crypto.Reference

-- The same agora founded without placing the founder in a class.
def unplaced : Founding := { founding with founderClasses := [] }

theorem unplaced_founds :
    (create unplaced entropy entropy none : Except _ (AgoraState 2)).toOption.isSome := by
  decide +kernel

def outside : AgoraState 2 := (create unplaced entropy entropy none).toOption.get unplaced_founds

theorem create_outside : create unplaced entropy entropy none = .ok outside :=
  eq_ok_get unplaced_founds

def classesBefore : ExtTreeMap PolicyClass (ClassState 2) :=
  ((∅ : ExtTreeMap PolicyClass (ClassState 2)).insert members (.new ⟨members, 1⟩)).insert guests
    (.new ⟨members, 1⟩)

theorem founder_lands : ((.new ⟨members, 1⟩ : ClassState 2).land founder).isSome := by
  decide +kernel

def placed : ClassState 2 := (((.new ⟨members, 1⟩ : ClassState 2).land founder).get founder_lands).2

theorem outside_classes : outside.classes = classesBefore := by rfl

theorem start_classes : start.classes = classesBefore.insert members placed := by rfl

theorem outside_start_differ : DifferByLanding founder members outside start where
  dissolved := by rfl
  staged := by rfl
  pending := by rfl
  elsewhere := by
    intro other hother
    rw [start_classes, outside_classes, ExtTreeMap.getElem?_insert, if_neg]
    rw [Std.compare_eq_iff_eq]
    exact hother.symm
  entered := by
    refine ⟨.new ⟨members, 1⟩, placed, by rfl, ?_, by rfl, by rfl, by decide +kernel, ?_⟩
    · rw [start_classes, ExtTreeMap.getElem?_insert_self]
    · intro other
      have hland : (.new ⟨members, 1⟩ : ClassState 2).land founder =
          some ((((.new ⟨members, 1⟩ : ClassState 2).land founder).get founder_lands).1, placed) :=
        (Option.some_get founder_lands).symm
      have hpositions := (ClassState.land_eq_some hland).2.2.2.2.1
      rw [hpositions, ExtTreeMap.mem_insert, Std.compare_eq_iff_eq, eq_comm]
  room := by decide +kernel
  agora := by rfl
  epoch := by rfl
  governanceQuorum := by rfl
  inboxHorizon := by rfl
  sessions := ⟨by rfl, by rfl⟩

-- The caller announces the leaf it asks about, and asks for a session.
def probing : List (Call (accepting 2)) :=
  [.credentialsInit founder address, .startVouch founder members entropy]

theorem intake_tells_a_member :
    ¬ ∀ (leaf : Commitment) (policyClass : PolicyClass) (without landed : AgoraState 2)
      (calls : List (Call (accepting 2))),
      Reachable (accepting 2) without → Reachable (accepting 2) landed →
      DifferByLanding leaf policyClass without landed → (∀ call ∈ calls, IsIntake call) →
      replies (accepting 2) without calls = replies (accepting 2) landed calls := by
  intro hclaim
  have hintake : ∀ call ∈ probing, IsIntake call := by
    simp only [probing, List.forall_mem_cons, List.not_mem_nil, false_imp_iff, implies_true,
      and_true]
    exact ⟨.inl ⟨_, _, rfl⟩, .inr ⟨_, _, _, rfl⟩⟩
  have hsame := hclaim founder members outside start probing
    ⟨_, _, _, _, outside, [], create_outside, rfl⟩ ⟨_, _, _, _, start, [], create_start, rfl⟩
    outside_start_differ hintake
  have hdifferent : replies (accepting 2) outside probing ≠ replies (accepting 2) start probing := by
    decide +kernel
  exact hdifferent hsame

-- A session for another class is answered alike.
theorem intake_tells_landing_iff_announced :
    replies (accepting 2) outside [.credentialsInit founder address,
      .startVouch founder guests entropy] =
    replies (accepting 2) start [.credentialsInit founder address,
      .startVouch founder guests entropy] := by
  refine (intake_tells_landing_iff outside_start_differ ?_).1.2 ?_
  · simp only [List.forall_mem_cons, List.not_mem_nil, false_imp_iff, implies_true, and_true]
    exact ⟨.inl ⟨_, _, rfl⟩, .inr ⟨_, _, _, rfl⟩⟩
  · rintro ⟨_, earlier, idEntropy, later, hcalls, _⟩
    have hmem : (.startVouch founder members idEntropy : Call (accepting 2)) ∈
        [.credentialsInit founder address, .startVouch founder guests entropy] := by
      rw [hcalls]
      exact List.mem_append_right _ List.mem_cons_self
    simp [members, guests, Bytes.replicate] at hmem

end Nymora.Protocol.Operator.AgoraState.Sample
