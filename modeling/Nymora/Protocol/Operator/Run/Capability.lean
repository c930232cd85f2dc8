import Nymora.Protocol.Operator.Run.Between

namespace Nymora.Protocol.Operator.AgoraState

open Nymora.Core
open Nymora.Crypto
open Nymora.Circuits
open Std (ExtTreeMap ExtTreeSet)

variable {depth otherDepth : Nat} {system : ProofSystem depth}
  {otherSystem : ProofSystem otherDepth}

-- A challenge handed out.
def Issues (event : Event system) (challenge : Challenge) : Prop :=
  event.call = .issueChallenge challenge.asBytes ∧ event.outcome = .ok (.challenge challenge)

-- Access granted against a challenge.
def Grants (event : Event system) (challenge : Challenge) (access : MemberAccess) : Prop :=
  ∃ policyClass proof, event.call = .redeemAccess policyClass proof challenge ∧
    event.outcome = .ok (.access access)

-- A challenge that a history issued in an epoch and has not granted access against since.
def Outstanding (history : History system) (epoch : Epoch) (challenge : Challenge) : Prop :=
  ∃ earlier issuing later, history = earlier ++ issuing :: later ∧ Issues issuing challenge ∧
    issuing.before.epoch = epoch ∧ ∀ event ∈ later, ∀ access, ¬ Grants event challenge access

variable [Primitives] {before after created state : AgoraState depth}
  {otherCreated otherState : AgoraState otherDepth} {history : History system}
  {otherHistory : History otherSystem}

-- A state admits none of the access another agora granted, and of its own only what it granted
-- in its current epoch for a challenge outstanding in that epoch.
structure Confined (history : History system) (state : AgoraState depth)
    (otherHistory : History otherSystem) : Prop where
  foreign : ∀ granting ∈ otherHistory, ∀ challenge access, Grants granting challenge access →
    Bars system state access
  own : ∀ earlier granting later challenge access, history = earlier ++ granting :: later →
    Grants granting challenge access → ¬ Bars system state access →
      granting.before.epoch = state.epoch ∧ Outstanding earlier state.epoch challenge

-- A grant is for the epoch it was made in, against a challenge that was outstanding.
theorem Transition.grants {call : Call system} {outcome : Outcome} {challenge : Challenge}
    {access : MemberAccess} (htransition : Transition system before call outcome after)
    (hgrants : Grants (⟨before, call, outcome, after⟩ : Event system) challenge access) :
    access.epoch = before.epoch ∧ challenge.asBytes ∈ before.challenges := by
  obtain ⟨policyClass, proof, hcall, houtcome⟩ := hgrants
  cases htransition with
  | redeemAccess _ hissued =>
      cases hcall
      cases houtcome
      exact ⟨rfl, hissued⟩
  | refused => cases houtcome
  | redeemConsumed => cases houtcome
  | _ => cases hcall

-- Where an outstanding challenge comes from: it was just issued, or it stayed outstanding.
theorem Transition.challenges {call : Call system} {outcome : Outcome} {challenge : Challenge}
    (htransition : Transition system before call outcome after)
    (hchallenge : challenge.asBytes ∈ after.challenges) :
    after.epoch = before.epoch ∧
      (Issues (⟨before, call, outcome, after⟩ : Event system) challenge ∨
        challenge.asBytes ∈ before.challenges ∧ ∀ access,
          ¬ Grants (⟨before, call, outcome, after⟩ : Event system) challenge access) := by
  cases htransition with
  | issueChallenge =>
      rw [ExtTreeSet.mem_insert, Std.compare_eq_iff_eq] at hchallenge
      rcases hchallenge with rfl | hearlier
      · exact ⟨rfl, Or.inl ⟨rfl, rfl⟩⟩
      · refine ⟨rfl, Or.inr ⟨hearlier, ?_⟩⟩
        rintro access ⟨_, _, hcall, _⟩
        cases hcall
  | redeemAccess =>
      simp only [present, ExtTreeSet.mem_erase, ne_eq, Std.compare_eq_iff_eq] at hchallenge
      refine ⟨rfl, Or.inr ⟨hchallenge.2, ?_⟩⟩
      rintro access ⟨_, _, hcall, _⟩
      cases hcall
      exact hchallenge.1 rfl
  | redeemConsumed =>
      simp only [present, ExtTreeSet.mem_erase] at hchallenge
      refine ⟨rfl, Or.inr ⟨hchallenge.2, ?_⟩⟩
      rintro access ⟨_, _, _, houtcome⟩
      cases houtcome
  | advanceEpoch _ hboundary =>
      rw [hboundary.challenges] at hchallenge
      simp at hchallenge
  | @execute subject proposal _ _ _ heffect =>
      generalize proposal.decision = decision at heffect
      cases heffect with
      | revocation hboundary =>
          rw [hboundary.challenges] at hchallenge
          simp at hchallenge
      | dissolution => simp [dissolve] at hchallenge
      | _ =>
          refine ⟨rfl, Or.inr ⟨hchallenge, ?_⟩⟩
          rintro access ⟨_, _, hcall, _⟩
          cases hcall
  | refused =>
      refine ⟨rfl, Or.inr ⟨hchallenge, ?_⟩⟩
      rintro access ⟨_, _, _, houtcome⟩
      cases houtcome
  | _ =>
      refine ⟨rfl, Or.inr ⟨hchallenge, ?_⟩⟩
      rintro access ⟨_, _, hcall, _⟩
      cases hcall

omit [Primitives] in
theorem Outstanding.concat {epoch : Epoch} {challenge : Challenge} {event : Event system}
    (houtstanding : Outstanding history epoch challenge)
    (hungranted : ∀ access, ¬ Grants event challenge access) :
    Outstanding (history ++ [event]) epoch challenge := by
  obtain ⟨earlier, issuing, later, rfl, hissues, hepoch, hlater⟩ := houtstanding
  refine ⟨earlier, issuing, later ++ [event], by simp, hissues, hepoch, ?_⟩
  intro other hother
  rcases List.mem_append.1 hother with hkept | hlast
  · exact hlater other hkept
  · rw [List.mem_singleton.1 hlast]
    exact hungranted

-- Every challenge a reachable state holds was issued in its epoch, with no grant since.
theorem Execution.outstanding (hexecution : Execution system created history state)
    (hsound : created.Sound) (hnone : created.challenges = ∅) {challenge : Challenge}
    (hchallenge : challenge.asBytes ∈ state.challenges) :
    Outstanding history state.epoch challenge := by
  refine (execution_invariant (motive := fun done current => ∀ challenge : Challenge,
    challenge.asBytes ∈ current.challenges → Outstanding done current.epoch challenge) hexecution
    hsound ?_ ?_).2 challenge hchallenge
  · intro challenge hmem
    rw [hnone] at hmem
    simp at hmem
  · intro done before after call outcome _ hdone htransition challenge hmem
    obtain ⟨hepoch, hissues | ⟨hearlier, hungranted⟩⟩ := htransition.challenges hmem
    · refine ⟨done, _, [], rfl, hissues, hepoch.symm, ?_⟩
      intro event hevent
      cases hevent
    · rw [hepoch]
      exact (hdone challenge hearlier).concat hungranted

-- What a grant carries is the epoch it was made in.
theorem Execution.grants {earlier later : History system} {granting : Event system}
    {challenge : Challenge} {access : MemberAccess}
    (hexecution : Execution system created (earlier ++ granting :: later) state)
    (hsound : created.Sound) (hgrants : Grants granting challenge access) :
    access.epoch = granting.before.epoch ∧ challenge.asBytes ∈ granting.before.challenges := by
  obtain ⟨_, _, htransition, _, _⟩ := hexecution.at_event hsound
  exact htransition.grants hgrants

-- Access carries an epoch number and no issuer, so what another agora granted is barred
-- exactly where the epochs differ or the gate is shut for good.
theorem access_is_confined {founding otherFounding : Founding}
    {tagSecret statementEntropy otherTagSecret otherStatementEntropy : Bytes 32}
    {logSeed otherLogSeed : Option (Bytes 32)}
    (hcreate : create founding tagSecret statementEntropy logSeed = .ok created)
    (hexecution : Execution system created history state)
    (hother : create otherFounding otherTagSecret otherStatementEntropy otherLogSeed =
      .ok otherCreated)
    (hothers : Execution otherSystem otherCreated otherHistory otherState) :
    Confined history state otherHistory ↔
      ∀ granting ∈ otherHistory, ∀ challenge access, Grants granting challenge access →
        state.dissolved = true ∨ granting.before.epoch ≠ state.epoch := by
  have hfresh := fresh_of_create hcreate
  have hcarried : ∀ granting ∈ otherHistory, ∀ challenge access,
      Grants granting challenge access → access.epoch = granting.before.epoch := by
    intro granting hmem challenge access hgrants
    obtain ⟨earlier, later, rfl⟩ := List.append_of_mem hmem
    exact (hothers.grants (fresh_of_create hother).sound hgrants).1
  constructor
  · intro hconfined granting hmem challenge access hgrants
    have hshut := bars_iff.1 (hconfined.foreign granting hmem challenge access hgrants)
    rw [Shut, hcarried granting hmem challenge access hgrants] at hshut
    exact hshut
  · intro hshut
    refine ⟨?_, ?_⟩
    · intro granting hmem challenge access hgrants
      rw [bars_iff, Shut, hcarried granting hmem challenge access hgrants]
      exact hshut granting hmem challenge access hgrants
    · rintro earlier granting later challenge access rfl hgrants hadmitted
      obtain ⟨hcarries, hissued⟩ := hexecution.grants hfresh.sound hgrants
      rw [bars_iff, Shut, not_or, not_not] at hadmitted
      have hepoch : granting.before.epoch = state.epoch := hcarries.symm.trans hadmitted.2
      obtain ⟨hearlier, _, _, _, _⟩ := hexecution.at_event hfresh.sound
      rw [← hepoch]
      exact ⟨rfl, hearlier.outstanding hfresh.sound hfresh.challenges hissued⟩

end Nymora.Protocol.Operator.AgoraState

namespace Nymora.Protocol.Operator.AgoraState.Sample

open Nymora.Core
open Nymora.Crypto
open scoped Nymora.Crypto.Reference

-- Another agora, founded at the same epoch.
def otherFounding : Founding := { founding with agora := .fromBytes (Bytes.replicate 32 16) }

theorem founds_other :
    (create otherFounding entropy entropy none : Except _ (AgoraState 2)).toOption.isSome := by
  decide +kernel

def otherStart : AgoraState 2 := (create otherFounding entropy entropy none).toOption.get founds_other

theorem create_otherStart : create otherFounding entropy entropy none = .ok otherStart :=
  eq_ok_get founds_other

def gated : List (Call (accepting 2)) :=
  [.issueChallenge entropy, .redeemAccess members () ⟨entropy⟩]

theorem access_is_confined_gated :
    Confined (played (accepting 2) otherStart [.advanceEpoch])
        (reached (accepting 2) otherStart [.advanceEpoch]) (played (accepting 2) start gated) ↔
      ∀ granting ∈ played (accepting 2) start gated, ∀ challenge access,
        Grants granting challenge access →
          (reached (accepting 2) otherStart [.advanceEpoch]).dissolved = true ∨
            granting.before.epoch ≠ (reached (accepting 2) otherStart [.advanceEpoch]).epoch :=
  access_is_confined create_otherStart (execution_played [.advanceEpoch]) create_start
    (execution_played gated)

theorem otherStart_open : ¬ Shut otherStart ⟨founding.genesis⟩ := by
  rw [Shut]
  decide +kernel

-- Access granted by one agora opens the gate of another that stands at the same epoch.
theorem access_is_portable :
    ¬ Confined (played (accepting 2) otherStart []) otherStart
      (played (accepting 2) start gated) := by
  intro hconfined
  have hbars := hconfined.foreign
    (playing (accepting 2) start [.issueChallenge entropy] (.redeemAccess members () ⟨entropy⟩))
    (List.mem_cons_of_mem _ (List.mem_singleton_self _)) ⟨entropy⟩ ⟨founding.genesis⟩
    ⟨members, (), rfl, by decide +kernel⟩
  exact otherStart_open (bars_iff.1 hbars)

end Nymora.Protocol.Operator.AgoraState.Sample
