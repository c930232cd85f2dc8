import Nymora.Protocol.Operator.Run.Between

namespace Nymora.Protocol.Operator.AgoraState

open Nymora.Core
open Nymora.Crypto
open Nymora.Accumulator
open Nymora.Circuits
open Std (ExtTreeMap ExtTreeSet)

variable {depth : Nat} {system : ProofSystem depth}

-- An accepted migration.
def Migrates (event : Event system) (policyClass : PolicyClass) (spend : Nullifier)
    (successor : Commitment) (inbox : InboxPublicKey) (admission : Admission) : Prop :=
  (∃ proof, event.call = .migrate policyClass proof spend successor inbox) ∧
    event.outcome = .ok (.admission admission)

-- An accepted migration that consumed a spend.
def Consumes (event : Event system) (spend : Nullifier) : Prop :=
  ∃ policyClass successor inbox admission,
    Migrates event policyClass spend successor inbox admission

-- The key an accepted call staged for a leaf.
def keyStagedFor (leaf : Commitment) (event : Event system) : Option InboxPublicKey :=
  match event.call, event.outcome with
  | .credentialsInit commitment inbox, .ok _ => if commitment = leaf then some inbox else none
  | .migrate _ _ _ successor inbox, .ok _ => if successor = leaf then some inbox else none
  | _, _ => none

-- No staged spend has the truncation of a fresh one.
def Unclaimed (state : AgoraState depth) (spend : Nullifier) : Prop :=
  ∀ staged ∈ state.staged.spends,
    truncateKey staged.asBytes = truncateKey spend.asBytes → staged = spend

variable [Primitives] {before after start state : AgoraState depth} {history : History system}

-- Only an accepted migration stages a spend.
theorem Transition.staged_spends {call : Call system} {outcome : Outcome}
    (htransition : Transition system before call outcome after) {spend : Nullifier}
    (hspend : spend ∈ after.staged.spends) :
    spend ∈ before.staged.spends ∨ Consumes ⟨before, call, outcome, after⟩ spend := by
  cases htransition with
  | @migrate policyClass proof fresh successor inbox admission _ _ _ _ _ _ _ =>
      rcases List.mem_append.1 hspend with hearlier | hlast
      · exact Or.inl hearlier
      · rw [List.mem_singleton.1 hlast]
        exact Or.inr ⟨policyClass, successor, inbox, admission, ⟨proof, rfl⟩, rfl⟩
  | execute _ heffect =>
      rcases heffect.clears_or_keeps with hcleared | huntouched
      · rw [hcleared.staged] at hspend
        cases hspend
      · rw [huntouched.staged] at hspend
        exact Or.inl hspend
  | executeLost => cases hspend
  | advanceLost => cases hspend
  | advanceEpoch _ hboundary =>
      rw [hboundary.staged] at hspend
      cases hspend
  | _ => exact Or.inl hspend

-- Where a consumed spend is: landed, staged, or beyond any further boundary.
def Retained (state : AgoraState depth) (spend : Nullifier) : Prop :=
  truncateKey spend.asBytes ∈ state.spends.keys ∨ spend ∈ state.staged.spends ∨
    state.dissolved = true ∨ state.epoch.next = none

theorem Transition.retained {call : Call system} {outcome : Outcome}
    (htransition : Transition system before call outcome after) {spend : Nullifier}
    (hretained : Retained before spend) : Retained after spend := by
  by_cases hturns : Turns (⟨before, call, outcome, after⟩ : Event system)
  · obtain ⟨hlive, ready, next, hready, hboundary⟩ := htransition.boundary_of_turns hturns
    refine Or.inl ?_
    rw [hboundary.mem_spends, hready.spends, hready.quiet.spends]
    rcases hretained with hlanded | hstaged | hdissolved | hnone
    · exact Or.inr hlanded
    · exact Or.inl ⟨spend, hstaged, rfl⟩
    · exact absurd (hlive.symm.trans hdissolved) (by decide)
    · have hfollowing := hboundary.following
      rw [hready.quiet.epoch, hnone] at hfollowing
      cases hfollowing
  · have hepoch := htransition.epoch_eq hturns
    rcases hretained with hlanded | hstaged | hdissolved | hnone
    all_goals
      by_cases hlast : before.epoch.next = none
      · exact Or.inr (Or.inr (Or.inr (by rw [hepoch, hlast])))
      cases hafter : after.dissolved with
      | true => exact Or.inr (Or.inr (Or.inl hafter))
      | false => ?_
    · exact Or.inl (by rwa [(htransition.keeps hturns hafter hlast).spends])
    · exact Or.inr (Or.inl ((htransition.keeps hturns hafter hlast).stagedSpends.subset hstaged))
    · exact absurd (hafter.symm.trans (htransition.course.dissolved hdissolved)) (by decide)
    · exact absurd hnone hlast

theorem Transition.migrates {call : Call system} {outcome : Outcome} {policyClass : PolicyClass}
    {spend : Nullifier} {successor : Commitment} {inbox : InboxPublicKey} {admission : Admission}
    (htransition : Transition system before call outcome after)
    (hmigrates : Migrates (⟨before, call, outcome, after⟩ : Event system) policyClass spend
      successor inbox admission) :
    ∃ proof entry roots, before.dissolved = false ∧
      Migratable system before policyClass proof spend successor roots ∧
      Stageable before policyClass successor entry ∧
      before.epoch.next = some admission.activeFrom ∧
      admission.position = before.promised policyClass entry ∧
      after = before.stageMigration policyClass spend successor inbox := by
  obtain ⟨⟨proof, hcall⟩, houtcome⟩ := hmigrates
  cases htransition with
  | migrate hlive hmigratable hstageable hnext hposition =>
      cases hcall
      cases houtcome
      exact ⟨_, _, _, hlive, hmigratable, hstageable, hnext, hposition, rfl⟩
  | refused => cases houtcome
  | migrateLost => cases houtcome
  | _ => cases hcall

-- A migration meets an earlier spend's truncation only among the staged spends.
theorem Retained.unclaimed_iff {call : Call system} {outcome : Outcome}
    (htransition : Transition system before call outcome after)
    (hretained : ∀ event ∈ history, ∀ spend, Consumes event spend → Retained before spend)
    (hstaged : ∀ spend ∈ before.staged.spends, ∃ event ∈ history, Consumes event spend) :
    (∀ event ∈ history, ∀ spend other, Consumes event spend →
      Consumes (⟨before, call, outcome, after⟩ : Event system) other →
        truncateKey spend.asBytes ≠ truncateKey other.asBytes) ↔
    ∀ spend, Consumes (⟨before, call, outcome, after⟩ : Event system) spend →
      Unclaimed before spend := by
  constructor
  · intro hdistinct spend hconsumes staged hmem heq
    obtain ⟨event, hevent, hearlier⟩ := hstaged staged hmem
    exact absurd heq (hdistinct event hevent staged spend hearlier hconsumes)
  · intro hunclaimed event hevent spend other hearlier hconsumes heq
    obtain ⟨policyClass, successor, inbox, admission, hmigrates⟩ := id hconsumes
    obtain ⟨_, _, _, hlive, hmigratable, _, hnext, _, _⟩ := htransition.migrates hmigrates
    rcases hretained event hevent spend hearlier with hlanded | hstands | hdissolved | hnone
    · rw [heq] at hlanded
      exact hmigratable.unspent hlanded
    · rw [hunclaimed other hconsumes spend hstands heq] at hstands
      exact hmigratable.unstagedSpend hstands
    · exact absurd (hlive.symm.trans hdissolved) (by decide)
    · exact absurd (hnext.symm.trans hnone) (by simp)

-- The invariant of the spends: a consumed spend is retained, a staged spend was consumed, and
-- two spends share a truncation exactly where one was consumed while the other stood staged.
structure Accounted (history : History system) (state : AgoraState depth) : Prop where
  retained : ∀ event ∈ history, ∀ spend, Consumes event spend → Retained state spend
  staged : ∀ spend ∈ state.staged.spends, ∃ event ∈ history, Consumes event spend
  distinct_iff : (history.Pairwise fun first second => ∀ spend other, Consumes first spend →
      Consumes second other → truncateKey spend.asBytes ≠ truncateKey other.asBytes) ↔
    ∀ event ∈ history, ∀ spend, Consumes event spend → Unclaimed event.before spend

theorem Accounted.step {call : Call system} {outcome : Outcome}
    (haccounted : Accounted history before)
    (htransition : Transition system before call outcome after) :
    Accounted (history ++ [⟨before, call, outcome, after⟩]) after where
  retained := by
    intro event hevent spend hconsumes
    rcases List.mem_append.1 hevent with hearlier | hlast
    · exact htransition.retained (haccounted.retained event hearlier spend hconsumes)
    · rw [List.mem_singleton.1 hlast] at hconsumes
      obtain ⟨_, _, _, _, hmigrates⟩ := hconsumes
      obtain ⟨_, _, _, _, _, _, _, _, rfl⟩ := htransition.migrates hmigrates
      exact Or.inr (Or.inl (List.mem_append_right _ (List.mem_singleton_self _)))
  staged := by
    intro spend hspend
    rcases htransition.staged_spends hspend with hearlier | hconsumes
    · obtain ⟨event, hevent, hconsumed⟩ := haccounted.staged spend hearlier
      exact ⟨event, List.mem_append_left _ hevent, hconsumed⟩
    · exact ⟨_, List.mem_append_right _ (List.mem_singleton_self _), hconsumes⟩
  distinct_iff := by
    have hlast := Retained.unclaimed_iff htransition haccounted.retained haccounted.staged
    rw [List.pairwise_append, haccounted.distinct_iff]
    simp only [List.pairwise_singleton, List.mem_singleton, forall_eq, true_and,
      List.forall_mem_append, hlast]

-- An accepted call stages its key over any other; short of a boundary nothing else touches it.
theorem Transition.stagedInboxes {call : Call system} {outcome : Outcome}
    (htransition : Transition system before call outcome after)
    (hunturned : ¬ Turns (⟨before, call, outcome, after⟩ : Event system)) (leaf : Commitment) :
    after.stagedInboxes[leaf]? = (keyStagedFor leaf
      (⟨before, call, outcome, after⟩ : Event system)).or before.stagedInboxes[leaf]? := by
  cases htransition with
  | credentialsInit =>
      simp only [keyStagedFor, ExtTreeMap.getElem?_insert, Std.compare_eq_iff_eq]
      split <;> rfl
  | migrate =>
      simp only [keyStagedFor, stageMigration, ExtTreeMap.getElem?_insert, Std.compare_eq_iff_eq]
      split <;> rfl
  | refused => cases call <;> rfl
  | advanceEpoch => exact absurd ⟨_, Or.inl ⟨rfl, rfl⟩⟩ hunturned
  | @execute subject proposal _ _ _ heffect =>
      generalize proposal.decision = decision at heffect
      cases heffect with
      | revocation => exact absurd ⟨_, Or.inr rfl⟩ hunturned
      | _ => rfl
  | _ => rfl

-- At the next boundary a migration's spend and successor land; the key registered for the
-- successor is the last one staged for it.
theorem migration_lands {migration turn : Event system} {between : History system}
    {policyClass : PolicyClass} {spend : Nullifier} {successor : Commitment}
    {inbox : InboxPublicKey} {admission : Admission} (hsound : migration.before.Sound)
    (htransition : Transition system migration.before migration.call migration.outcome
      migration.after)
    (hmigrates : Migrates migration policyClass spend successor inbox admission)
    (hbetween : Execution system migration.after between turn.before)
    (hunturned : ∀ event ∈ between, ¬ Turns event)
    (hturning : Transition system turn.before turn.call turn.outcome turn.after)
    (hturns : Turns turn) :
    truncateKey spend.asBytes ∈ turn.after.spends.keys ∧
      (∃ entry, turn.after.classes[policyClass]? = some entry ∧
        entry.positions[successor]? = some admission.position) ∧
      turn.after.inboxes[successor]?.map InboxRecord.key =
        ((between.filterMap (keyStagedFor successor)).getLast?).or (some inbox) := by
  obtain ⟨_, entry, _, _, _, hstageable, hnext, hposition, hafter⟩ :=
    htransition.migrates hmigrates
  obtain ⟨hlive, ready, next, hready, hboundary⟩ := hturning.boundary_of_turns hturns
  have hsoundAfter := htransition.sound hsound
  obtain ⟨hkeeps, hstagedInbox⟩ := hbetween.keeps hsoundAfter hunturned hlive (by
      rw [hafter]
      exact Option.ne_none_iff_exists'.2 ⟨_, hnext⟩)
    (motive := fun done current => current.stagedInboxes[successor]? =
      ((done.filterMap (keyStagedFor successor)).getLast?).or (some inbox))
    (by rw [hafter]; simp [stageMigration]) (by
      intro done before after call outcome _ hstep hquiet _ hdone
      rw [hstep.stagedInboxes hquiet, hdone, List.filterMap_append]
      cases hkey : keyStagedFor successor (⟨before, call, outcome, after⟩ : Event system) with
      | none => simp [hkey]
      | some key => simp [hkey])
  have hawaits : Awaits ready policyClass successor admission.position :=
    hready.keeps.awaits (hkeeps.awaits (awaits_of_admission hstageable.configured hposition
      (by rw [hafter]; rfl) (by rw [hafter]; rfl)))
  have hspend : spend ∈ ready.staged.spends := by
    rw [hready.spends]
    refine hkeeps.stagedSpends.subset ?_
    rw [hafter]
    exact List.mem_append_right _ (List.mem_singleton_self _)
  have hleaf : successor ∈ ready.staged.admissions.map Prod.snd := by
    obtain ⟨_, earlier, later, _, hstaged, _⟩ := hawaits
    have hmem : successor ∈ stagedFor ready.staged.admissions policyClass := by
      rw [hstaged]
      exact List.mem_append_right _ List.mem_cons_self
    exact List.mem_map.2 ⟨_, mem_stagedFor.1 hmem, rfl⟩
  have hprovisioned : ready.Provisioned :=
    (hbetween.sound hsoundAfter).provisioned.congr hready.quiet.classes hready.admissions
  refine ⟨hboundary.mem_spends.2 (Or.inl ⟨spend, hspend, rfl⟩),
    hboundary.lands_awaited hprovisioned hawaits, ?_⟩
  rw [hboundary.inboxes, if_pos hleaf, hready.stagedInboxes, hstagedInbox]
  cases (between.filterMap (keyStagedFor successor)).getLast? <;> rfl

-- In every run over any proof system: two accepted migrations share a truncation exactly where
-- the second found the first's still staged under other bytes, and what an accepted migration
-- stages lands whole exactly where no other key was staged last for its successor.
theorem migration_consumes_once {founding : Founding} {tagSecret statementEntropy : Bytes 32}
    {logSeed : Option (Bytes 32)} {created : AgoraState depth}
    (hcreate : create founding tagSecret statementEntropy logSeed = .ok created)
    (hexecution : Execution system created history state) :
    ((history.Pairwise fun first second => ∀ spend other, Consumes first spend →
        Consumes second other → truncateKey spend.asBytes ≠ truncateKey other.asBytes) ↔
      ∀ event ∈ history, ∀ spend, Consumes event spend → Unclaimed event.before spend) ∧
    ∀ (earlier later : History system) (migration : Event system) policyClass spend successor inbox
      admission, history = earlier ++ migration :: later →
      Migrates migration policyClass spend successor inbox admission →
        (spend ∈ migration.after.staged.spends ∧
          (policyClass, successor) ∈ migration.after.staged.admissions ∧
          migration.after.stagedInboxes[successor]? = some inbox) ∧
        ∀ (between rest : History system) (turn : Event system),
          later = between ++ turn :: rest → (∀ event ∈ between, ¬ Turns event) → Turns turn →
            truncateKey spend.asBytes ∈ turn.after.spends.keys ∧
            (∃ entry, turn.after.classes[policyClass]? = some entry ∧
              entry.positions[successor]? = some admission.position) ∧
            (turn.after.inboxes[successor]?.map InboxRecord.key = some inbox ↔
              ∀ key, (between.filterMap (keyStagedFor successor)).getLast? = some key →
                key = inbox) := by
  have hfresh := fresh_of_create hcreate
  have hcreated : Accounted ([] : History system) created := ⟨by simp, by simp [hfresh.staged], by simp⟩
  obtain ⟨_, haccounted⟩ := execution_invariant hexecution hfresh.sound hcreated
    (fun _ _ _ _ _ _ haccounted htransition => haccounted.step htransition)
  refine ⟨haccounted.distinct_iff, ?_⟩
  rintro earlier later migration policyClass spend successor inbox admission rfl hmigrates
  obtain ⟨_, hsound, htransition, hafterSound, hlater⟩ := hexecution.at_event hfresh.sound
  constructor
  · obtain ⟨_, _, _, _, _, _, _, _, hafter⟩ := htransition.migrates hmigrates
    rw [hafter]
    exact ⟨List.mem_append_right _ (List.mem_singleton_self _),
      List.mem_append_right _ (List.mem_singleton_self _), by simp [stageMigration]⟩
  · rintro between rest turn rfl hunturned hturns
    obtain ⟨hbetween, _, hturning, _, _⟩ := hlater.at_event hafterSound
    obtain ⟨hspend, hlanded, hinbox⟩ :=
      migration_lands hsound htransition hmigrates hbetween hunturned hturning hturns
    refine ⟨hspend, hlanded, ?_⟩
    rw [hinbox]
    cases (between.filterMap (keyStagedFor successor)).getLast? <;> simp

end Nymora.Protocol.Operator.AgoraState

namespace Nymora.Protocol.Operator.AgoraState.Sample

open Nymora.Core
open Nymora.Crypto
open Nymora.Accumulator
open scoped Nymora.Crypto.Reference

def spend : Nullifier := .fromBytes (Bytes.replicate 32 16)

-- The same spend but for a bit that truncation clears.
def twinSpend : Nullifier := .fromBytes ((Bytes.replicate 32 16).modify 31 (· ||| 0x80))

def migrating : Call (accepting 2) := .migrate members () spend candidate address

def migratingAgain : Call (accepting 2) := .migrate guests () twinSpend candidate address

theorem migrates_migrating : Migrates (playing (accepting 2) start [] migrating) members spend
    candidate address ⟨⟨1, by decide⟩, 2⟩ := ⟨⟨(), rfl⟩, by decide +kernel⟩

theorem migration_consumes_once_landed :
    truncateKey spend.asBytes ∈
      (reached (accepting 2) start [migrating, .advanceEpoch]).spends.keys := by
  have hplayed : played (accepting 2) start [migrating, .advanceEpoch] =
      [] ++ playing (accepting 2) start [] migrating ::
        ([] ++ playing (accepting 2) start [migrating] .advanceEpoch :: []) := rfl
  have hturns : Turns (playing (accepting 2) start [migrating] .advanceEpoch) :=
    turns_of_advanceEpoch rfl (by decide +kernel)
  have hconsumes := migration_consumes_once create_start
    (execution_played ([migrating, .advanceEpoch] : List (Call (accepting 2))))
  exact ((hconsumes.2 _ _ _ _ _ _ _ _ hplayed migrates_migrating).2 _ _ _ rfl (by simp) hturns).1

-- Two migrations of one epoch consume one truncation, and an initiation between a migration and
-- its boundary takes the successor's address over.
theorem migration_slips :
    (Consumes (playing (accepting 2) start [] migrating) spend ∧
      Consumes (playing (accepting 2) start [migrating] migratingAgain) twinSpend ∧
      spend ≠ twinSpend ∧ truncateKey spend.asBytes = truncateKey twinSpend.asBytes) ∧
    (reached (accepting 2) start
      [migrating, .credentialsInit candidate otherAddress, .advanceEpoch]).inboxes[candidate]?.map
        InboxRecord.key = some otherAddress ∧ address ≠ otherAddress := by
  refine ⟨⟨⟨_, _, _, _, migrates_migrating⟩, ⟨guests, candidate, address, ⟨⟨1, by decide⟩, 0⟩,
    ⟨(), rfl⟩, ?_⟩, ?_, ?_⟩, ?_, ?_⟩
  all_goals decide +kernel

end Nymora.Protocol.Operator.AgoraState.Sample
