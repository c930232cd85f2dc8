import Nymora.Protocol.Operator.Run.Migration

namespace Nymora.Protocol.Operator.AgoraState

open Nymora.Core
open Nymora.Crypto
open Nymora.Accumulator
open Nymora.Circuits
open Nymora.Proofs
open Method
open Std (ExtTreeMap ExtTreeSet)

variable {depth : Nat} {system : ProofSystem depth}

-- An accepted call that promises a leaf a place in a class.
def Admits (event : Event system) (policyClass : PolicyClass) (leaf : Commitment)
    (admission : Admission) : Prop :=
  event.outcome = .ok (.admission admission) ∧
    ((∃ session opened, event.call = .vouchFinalize session ∧
        event.before.sessions[session]? = some opened ∧ opened.target = policyClass ∧
        opened.candidate = leaf) ∨
      ∃ proof spend inbox, event.call = .migrate policyClass proof spend leaf inbox)

-- A leaf in a slot of a class's tree.
def Stands (state : AgoraState depth) (policyClass : PolicyClass) (position : Nat)
    (leaf : Commitment) : Prop :=
  ∃ entry : ClassState depth, state.classes[policyClass]? = some entry ∧
    entry.tree.leaves[position]? = some leaf

-- The tree's witness for a position verifies a leaf against the root of the current epoch.
def Proven (state : AgoraState depth) (policyClass : PolicyClass) (position : Nat)
    (leaf : Commitment) : Prop :=
  ∃ (entry : ClassState depth) (witness : Witness depth) (roots : EpochRoots),
    state.classes[policyClass]? = some entry ∧ entry.tree.witness position = some witness ∧
      state.rootsIn state.epoch policyClass = .ok roots ∧
      verifies leaf witness roots.policyClass = true

theorem Sound.rootsIn_epoch {state : AgoraState depth} (hsound : state.Sound)
    {policyClass : PolicyClass} {entry : ClassState depth}
    (hentry : state.classes[policyClass]? = some entry) :
    state.rootsIn state.epoch policyClass =
      .ok ⟨entry.tree.root, state.revocations.root, state.spends.root⟩ := by
  refine rootsIn_eq_ok.2 ⟨state.rootsNow, entry.tree.root, hsound.rooted, ?_, rfl⟩
  simp [rootsNow, hentry]

theorem Sound.proven {state : AgoraState depth} (hsound : state.Sound) (hpositive : 1 ≤ depth)
    (hdepth : depth < 64) {policyClass : PolicyClass} {position : Nat} {leaf : Commitment}
    (hstands : Stands state policyClass position leaf) :
    Proven state policyClass position leaf := by
  obtain ⟨entry, hentry, hleaf⟩ := hstands
  have hlength := (List.getElem?_eq_some_iff.1 hleaf).1
  obtain ⟨witness, hwitness⟩ := Option.isSome_iff_exists.1 (Tree.witness_isSome hdepth hlength)
  exact ⟨entry, witness, _, hentry, hwitness, hsound.rootsIn_epoch hentry,
    Tree.verifies_witness hpositive hdepth hwitness hleaf⟩

-- A class is never promised more than it holds.
theorem Sound.room {state : AgoraState depth} (hsound : state.Sound) (hpositive : 1 ≤ depth)
    (hdepth : depth < 64) {policyClass : PolicyClass} {entry : ClassState depth}
    (hentry : state.classes[policyClass]? = some entry) :
    entry.occupied +
      (state.staged.admissions.countP fun admission => admission.1 = policyClass) ≤
        ClassState.CAPACITY depth := by
  rw [← length_stagedFor]
  rcases hsound.provisioned.room policyClass entry hentry with hnone | hroom
  · have hslots := entry.slots
    have hfits := entry.tree.fits hdepth
    obtain ⟨height, rfl⟩ := Nat.exists_eq_succ_of_ne_zero (by omega : depth ≠ 0)
    rw [slotCount, if_neg (Nat.succ_ne_zero height)] at hslots
    rw [Nat.pow_succ] at hfits
    rw [hnone, ClassState.CAPACITY, if_neg (Nat.succ_ne_zero height), if_pos hdepth,
      Nat.succ_sub_one, List.length_nil]
    omega
  · exact hroom

variable [Primitives] {before after start state : AgoraState depth} {history : History system}

-- No step takes a leaf out of its slot.
theorem Course.stands (hcourse : Course before after) {policyClass : PolicyClass} {position : Nat}
    {leaf : Commitment} (hstands : Stands before policyClass position leaf) :
    Stands after policyClass position leaf := by
  have hready : ∀ {ready : AgoraState depth}, Ready before ready →
      Stands ready policyClass position leaf := by
    intro ready hready
    unfold Stands
    rw [hready.quiet.classes]
    exact hstands
  cases hcourse with
  | quiet hquiet =>
      unfold Stands
      rw [hquiet.classes]
      exact hstands
  | @policy ready changed entry _ _ hwithin hentry =>
      obtain ⟨stood, hstood, hleaf⟩ := hready hwithin
      by_cases heq : changed = policyClass
      · subst heq
        obtain rfl : entry = stood := Option.some_inj.1 (hentry.symm.trans hstood)
        exact ⟨_, ExtTreeMap.getElem?_insert_self, hleaf⟩
      · refine ⟨stood, ?_, hleaf⟩
        simp only [withPolicy, ExtTreeMap.getElem?_insert, Std.compare_eq_iff_eq]
        rw [if_neg heq]
        exact hstood
  | dissolution hwithin =>
      have hstood := hready hwithin
      exact hstood
  | inboxHorizon hwithin =>
      have hstood := hready hwithin
      exact hstood
  | boundary _ hwithin hboundary =>
      obtain ⟨stood, hstood, hleaf⟩ := hready hwithin
      obtain ⟨landed, hlanded, hlands⟩ := hboundary.lands policyClass stood hstood
      refine ⟨landed, hlanded, ?_⟩
      obtain ⟨more, hmore⟩ := hlands.leaves_prefix
      rw [← hmore, List.getElem?_append_left (List.getElem?_eq_some_iff.1 hleaf).1]
      exact hleaf

theorem Execution.stands (hexecution : Execution system start history state)
    (hsound : start.Sound) {policyClass : PolicyClass} {position : Nat} {leaf : Commitment}
    (hstands : Stands start policyClass position leaf) :
    Stands state policyClass position leaf :=
  hexecution.preserves hsound hstands fun _ _ _ hcourse hstood => hcourse.stands hstood

-- What a promise is made of.
theorem Transition.admits {call : Call system} {outcome : Outcome} {policyClass : PolicyClass}
    {leaf : Commitment} {admission : Admission}
    (htransition : Transition system before call outcome after)
    (hadmits : Admits (⟨before, call, outcome, after⟩ : Event system) policyClass leaf
      admission) :
    ∃ entry, before.classes[policyClass]? = some entry ∧
      before.epoch.next = some admission.activeFrom ∧
      admission.position = before.promised policyClass entry ∧ after.classes = before.classes ∧
      after.epoch = before.epoch ∧
      after.staged.admissions = before.staged.admissions ++ [(policyClass, leaf)] := by
  obtain ⟨houtcome, ⟨session, opened, hcall, hopened, rfl, rfl⟩ | ⟨proof, spend, inbox, hcall⟩⟩ :=
    hadmits
  · cases htransition with
    | @vouchFinalize _ held entry _ _ hheld _ hstageable hnext hposition =>
        cases hcall
        cases houtcome
        obtain rfl : held = opened := Option.some_inj.1 (hheld.symm.trans hopened)
        exact ⟨entry, hstageable.configured, hnext, hposition, rfl, rfl, rfl⟩
    | refused => cases houtcome
    | finalizeClosed => cases houtcome
    | finalizeConsumed => cases houtcome
    | finalizeLost => cases houtcome
    | _ => cases hcall
  · cases htransition with
    | @migrate _ _ _ _ _ _ entry _ _ _ hstageable hnext hposition =>
        cases hcall
        cases houtcome
        exact ⟨entry, hstageable.configured, hnext, hposition, rfl, rfl, rfl⟩
    | refused => cases houtcome
    | migrateLost => cases houtcome
    | _ => cases hcall

-- The first boundary after a promise enters the promised epoch and lands the leaf where promised.
theorem promise_lands {admitting turn : Event system} {between : History system}
    {policyClass : PolicyClass} {leaf : Commitment} {admission : Admission}
    (hsound : admitting.before.Sound)
    (htransition : Transition system admitting.before admitting.call admitting.outcome
      admitting.after)
    (hadmits : Admits admitting policyClass leaf admission)
    (hbetween : Execution system admitting.after between turn.before)
    (hunturned : ∀ event ∈ between, ¬ Turns event)
    (hturning : Transition system turn.before turn.call turn.outcome turn.after)
    (hturns : Turns turn) :
    turn.after.epoch = admission.activeFrom ∧
      ∃ entry, turn.after.classes[policyClass]? = some entry ∧
        entry.positions[leaf]? = some admission.position := by
  obtain ⟨entry, hentry, hnext, hposition, hclasses, hepoch, hstaged⟩ := htransition.admits hadmits
  obtain ⟨hlive, ready, next, hready, hboundary⟩ := hturning.boundary_of_turns hturns
  have hsoundAfter := htransition.sound hsound
  obtain ⟨hkeeps, _⟩ := hbetween.keeps hsoundAfter hunturned hlive (by
      rw [hepoch, hnext]
      exact Option.some_ne_none _)
    (motive := fun _ _ => True) trivial (fun _ _ _ _ _ _ _ _ _ _ => trivial)
  have hawaits : Awaits ready policyClass leaf admission.position :=
    hready.keeps.awaits (hkeeps.awaits (awaits_of_admission hentry hposition hclasses hstaged))
  have hprovisioned : ready.Provisioned :=
    (hbetween.sound hsoundAfter).provisioned.congr hready.quiet.classes hready.admissions
  refine ⟨?_, hboundary.lands_awaited hprovisioned hawaits⟩
  have hfollowing := hboundary.following
  rw [hready.quiet.epoch, hkeeps.epoch, hepoch, hnext, Option.some_inj] at hfollowing
  rw [hboundary.epoch, hfollowing]

-- In every run over any proof system a promised admission is kept by the next boundary, holds
-- from there on, and never asks for more room than there is.
theorem admission_promise_is_kept {founding : Founding} {tagSecret statementEntropy : Bytes 32}
    {logSeed : Option (Bytes 32)} {created : AgoraState depth} (hpositive : 1 ≤ depth)
    (hdepth : depth < 64)
    (hcreate : create founding tagSecret statementEntropy logSeed = .ok created)
    (hexecution : Execution system created history state) :
    (∀ (earlier later : History system) (admitting : Event system) policyClass leaf admission,
      history = earlier ++ admitting :: later → Admits admitting policyClass leaf admission →
        ∀ (between rest : History system) (turn : Event system),
          later = between ++ turn :: rest → (∀ event ∈ between, ¬ Turns event) → Turns turn →
            turn.after.epoch = admission.activeFrom ∧
            (∃ entry, turn.after.classes[policyClass]? = some entry ∧
              entry.positions[leaf]? = some admission.position) ∧
            ∀ (onward beyond : History system) (onwards : AgoraState depth),
              rest = onward ++ beyond → Execution system turn.after onward onwards →
                Proven onwards policyClass admission.position leaf) ∧
    (∀ (policyClass : PolicyClass) (entry : ClassState depth),
      state.classes[policyClass]? = some entry → entry.occupied +
        (state.staged.admissions.countP fun admission => admission.1 = policyClass) ≤
          ClassState.CAPACITY depth) ∧
    ∀ next : Epoch, ∃ landed, (forM state.staged.admissions (landStaged next))
      { state with staged := {} } = .ok ⟨⟩ landed := by
  have hfresh := fresh_of_create hcreate
  have hsound := hexecution.sound hfresh.sound
  refine ⟨?_, fun _ _ hentry => hsound.room hpositive hdepth hentry, ?_⟩
  · rintro earlier later admitting policyClass leaf admission rfl hadmits between rest turn rfl
      hunturned hturns
    obtain ⟨_, hbefore, htransition, hafter, hlater⟩ := hexecution.at_event hfresh.sound
    obtain ⟨hbetween, _, hturning, hturned, _⟩ := hlater.at_event hafter
    obtain ⟨hepoch, entry, hentry, hposition⟩ :=
      promise_lands hbefore htransition hadmits hbetween hunturned hturning hturns
    refine ⟨hepoch, ⟨entry, hentry, hposition⟩, ?_⟩
    rintro onward beyond onwards rfl honward
    obtain ⟨_, _, _, hleaf⟩ := entry.placed leaf admission.position hposition
    exact (honward.sound hturned).proven hpositive hdepth
      (honward.stands hturned ⟨entry, hentry, hleaf⟩)
  · intro next
    obtain ⟨landed, hlanded⟩ := exists_landing next state.staged.admissions
      { state with staged := {} } hsound.provisioned.configured hsound.provisioned.room
    exact ⟨landed, forM_eq_ok.2 hlanded⟩

end Nymora.Protocol.Operator.AgoraState

namespace Nymora.Protocol.Operator.AgoraState.Sample

open Nymora.Core
open Nymora.Crypto
open scoped Nymora.Crypto.Reference

theorem admission_promise_is_kept_migrated :
    Proven (playing (accepting 2) start [migrating] .advanceEpoch).after members 2 candidate := by
  have hplayed : played (accepting 2) start [migrating, .advanceEpoch] =
      [] ++ playing (accepting 2) start [] migrating ::
        ([] ++ playing (accepting 2) start [migrating] .advanceEpoch :: []) := rfl
  have hadmits : Admits (playing (accepting 2) start [] migrating) members candidate
      ⟨⟨1, by decide⟩, 2⟩ := ⟨by decide +kernel, Or.inr ⟨(), spend, address, rfl⟩⟩
  have hturns : Turns (playing (accepting 2) start [migrating] .advanceEpoch) :=
    turns_of_advanceEpoch rfl (by decide +kernel)
  have hkept := admission_promise_is_kept (by decide) (by decide) create_start
    (execution_played ([migrating, .advanceEpoch] : List (Call (accepting 2))))
  exact (hkept.1 _ _ _ _ _ _ hplayed hadmits _ _ _ rfl (by simp) hturns).2.2 [] [] _ rfl
    (execution_played [])

end Nymora.Protocol.Operator.AgoraState.Sample
