import Nymora.Protocol.Operator.Boundary.Theorems
import Nymora.Protocol.Operator.Vouch

namespace Nymora.Protocol.Operator.AgoraState

open Nymora.Core
open Nymora.Circuits
open Nymora.Proofs
open Method

variable {depth : Nat} {state after : AgoraState depth}

theorem credentialsInit_eq_ok {commitment : Commitment} {inbox : InboxPublicKey}
    {result : Recorded} :
    credentialsInit commitment inbox state = .ok result after ↔
      state.dissolved = false ∧ after = { state with
        pending := state.pending.insert commitment
        stagedInboxes := state.stagedInboxes.insert commitment inbox } := by
  simp only [credentialsInit, checkLive_bind_eq_ok, modify_bind, pure_eq_ok, true_and]

theorem credentialsInit_eq_error {commitment : Commitment} {inbox : InboxPublicKey}
    {refusal : ProtocolError}
    (herror : credentialsInit commitment inbox state = .error refusal after) : after = state := by
  simp only [credentialsInit, checkLive_bind_eq_error, modify_bind, pure_eq_error, and_false,
    or_false] at herror
  exact herror.2.2

-- The state with a session written under an identifier.
def withSession (state : AgoraState depth) (id : SessionId) (session : VouchSession) :
    AgoraState depth :=
  { state with sessions := state.sessions.insert id session }

theorem startVouch_eq_ok {candidate : Commitment} {target : PolicyClass} {idEntropy : Bytes 32}
    {id : SessionId} :
    startVouch candidate target idEntropy state = .ok id after ↔
      state.dissolved = false ∧ candidate ∈ state.pending ∧
        (∃ entry, state.classes[target]? = some entry ∧ candidate ∉ entry.positions) ∧
        state.remainingCapacity target ≠ 0 ∧ id = .fromBytes idEntropy ∧
        after = state.withSession id ⟨candidate, target, ∅⟩ := by
  simp only [startVouch, checkLive_bind_eq_ok, translating_bind_eq_ok, get_bind,
    ensure_bind_eq_ok, classEntry_bind_eq_ok, ensure_eq_ok, modify_bind, pure_eq_ok]
  constructor
  · rintro ⟨hlive, _, _, ⟨hpending, entry, hentry, hunlanded, hroom, rfl⟩, rfl, hafter⟩
    exact ⟨hlive, hpending, ⟨entry, hentry, hunlanded⟩, hroom, rfl, hafter⟩
  · rintro ⟨hlive, hpending, ⟨entry, hentry, hunlanded⟩, hroom, rfl, hafter⟩
    exact ⟨hlive, (), state, ⟨hpending, entry, hentry, hunlanded, hroom, rfl⟩, rfl, hafter⟩

theorem startVouch_eq_error {candidate : Commitment} {target : PolicyClass} {idEntropy : Bytes 32}
    {refusal : ProtocolError}
    (herror : startVouch candidate target idEntropy state = .error refusal after) :
    after = state := by
  simp only [startVouch, checkLive_bind_eq_error, translating_bind_eq_error, get_bind,
    ensure_bind_eq_error, classEntry_bind_eq_error, ensure_eq_error, modify_bind, pure_eq_error,
    and_false, exists_false, or_false] at herror
  grind

theorem vouchAttest_eq_ok {system : ProofSystem depth} {session : SessionId} {proof : system.Proof}
    {nullifier : Nullifier} {result : Recorded} :
    vouchAttest system session proof nullifier state = .ok result after ↔
      state.dissolved = false ∧ ∃ opened entry roots,
        state.sessions[session]? = some opened ∧ state.classes[opened.target]? = some entry ∧
        state.rootsIn state.epoch entry.policy.voucherClass = .ok roots ∧
        verifyVouch system proof state.agora state.epoch roots session.asBytes.toList nullifier ∧
        nullifier ∉ opened.nullifiers ∧
        after = state.withSession session
          { opened with nullifiers := opened.nullifiers.insert nullifier } := by
  simp only [vouchAttest, checkLive_bind_eq_ok, translating_bind_eq_ok, get_bind,
    expect_bind_eq_ok, classEntry_bind_eq_ok, expectOk_bind_eq_ok, ensure_bind_eq_ok, set_eq_ok,
    pure_eq_ok, true_and]
  constructor
  · rintro ⟨hlive, _, _, ⟨opened, hopened, entry, hentry, roots, hroots, hproof, hfresh, rfl⟩,
      hafter⟩
    exact ⟨hlive, opened, entry, roots, hopened, hentry, hroots, hproof, hfresh, hafter⟩
  · rintro ⟨hlive, opened, entry, roots, hopened, hentry, hroots, hproof, hfresh, hafter⟩
    exact ⟨hlive, ⟨⟩, _, ⟨opened, hopened, entry, hentry, roots, hroots, hproof, hfresh, rfl⟩,
      hafter⟩

theorem vouchAttest_eq_error {system : ProofSystem depth} {session : SessionId}
    {proof : system.Proof} {nullifier : Nullifier} {refusal : ProtocolError}
    (herror : vouchAttest system session proof nullifier state = .error refusal after) :
    after = state := by
  simp only [vouchAttest, checkLive_bind_eq_error, translating_bind_eq_error, get_bind,
    expect_bind_eq_error, classEntry_bind_eq_error, expectOk_bind_eq_error, ensure_bind_eq_error,
    set_eq_error, pure_eq_error, and_false, exists_false, or_false] at herror
  grind

-- What staging asks of a leaf and a class.
structure Stageable (state : AgoraState depth) (policyClass : PolicyClass) (leaf : Commitment)
    (entry : ClassState depth) : Prop where
  room : state.remainingCapacity policyClass ≠ 0
  configured : state.classes[policyClass]? = some entry
  unlanded : leaf ∉ entry.positions
  unstaged : (policyClass, leaf) ∉ state.staged.admissions

-- The state with one more admission staged.
def stage (state : AgoraState depth) (policyClass : PolicyClass) (leaf : Commitment) :
    AgoraState depth :=
  { state with staged := { state.staged with
    admissions := state.staged.admissions ++ [(policyClass, leaf)] } }

-- The position a leaf staged now is promised.
def promised (state : AgoraState depth) (policyClass : PolicyClass) (entry : ClassState depth) :
    Nat :=
  positionOf (entry.occupied + (stagedFor state.staged.admissions policyClass).length)

theorem stageAdmission_eq_ok {policyClass : PolicyClass} {leaf : Commitment}
    {admission : Admission} :
    stageAdmission policyClass leaf state = .ok admission after ↔
      ∃ entry, Stageable state policyClass leaf entry ∧
        state.epoch.next = some admission.activeFrom ∧
        admission.position = state.promised policyClass entry ∧
        after = state.stage policyClass leaf := by
  simp only [stageAdmission, get_bind, ensure_bind_eq_ok, classEntry_bind_eq_ok, modify_bind,
    expect_bind_eq_ok, pure_eq_ok, promised, length_stagedFor]
  constructor
  · rintro ⟨hroom, entry, hentry, hfresh, activeFrom, hnext, rfl, hafter⟩
    obtain ⟨hunlanded, hunstaged⟩ := not_or.1 hfresh
    exact ⟨entry, ⟨hroom, hentry, hunlanded, hunstaged⟩, hnext, rfl, hafter⟩
  · rintro ⟨entry, hstageable, hnext, hposition, hafter⟩
    obtain ⟨activeFrom, position⟩ := admission
    simp only at hnext hposition
    subst hposition
    exact ⟨hstageable.room, entry, hstageable.configured,
      not_or.2 ⟨hstageable.unlanded, hstageable.unstaged⟩, activeFrom, hnext, rfl, hafter⟩

-- A refusal writes nothing, except at the last epoch, where the admission is already pushed.
theorem stageAdmission_eq_error {policyClass : PolicyClass} {leaf : Commitment}
    {refusal : Rejection}
    (herror : stageAdmission policyClass leaf state = .error refusal after) :
    (¬ ∃ entry, Stageable state policyClass leaf entry) ∧ after = state ∨
      state.epoch.next = none ∧ (∃ entry, Stageable state policyClass leaf entry) ∧
        after = state.stage policyClass leaf := by
  simp only [stageAdmission, get_bind, ensure_bind_eq_error, classEntry_bind_eq_error, modify_bind,
    expect_bind_eq_error, pure_eq_error, and_false, exists_false, or_false] at herror
  obtain ⟨hfull, _, hafter⟩ | ⟨hroom, ⟨hnone, _, hafter⟩ | ⟨entry, hentry,
    ⟨hduplicate, _, hafter⟩ | ⟨hfresh, hnext, _, hafter⟩⟩⟩ := herror
  · exact Or.inl ⟨fun ⟨_, hstageable⟩ => hfull hstageable.room, hafter⟩
  · refine Or.inl ⟨fun ⟨_, hstageable⟩ => ?_, hafter⟩
    rw [hstageable.configured] at hnone
    cases hnone
  · refine Or.inl ⟨fun ⟨other, hstageable⟩ => hduplicate ?_, hafter⟩
    obtain rfl : entry = other := Option.some_inj.1 (hentry.symm.trans hstageable.configured)
    exact not_or.2 ⟨hstageable.unlanded, hstageable.unstaged⟩
  · obtain ⟨hunlanded, hunstaged⟩ := not_or.1 hfresh
    exact Or.inr ⟨hnext, ⟨entry, hroom, hentry, hunlanded, hunstaged⟩, hafter⟩

-- The state a finalization leaves of the session and the pending set before it stages.
def closeSession (state : AgoraState depth) (session : SessionId) (candidate : Commitment) :
    AgoraState depth :=
  { state with
    sessions := state.sessions.erase session
    pending := state.pending.erase candidate }

-- Closing a session changes nothing that staging asks about.
theorem stageable_closeSession {session : SessionId} {candidate : Commitment}
    {policyClass : PolicyClass} {leaf : Commitment} {entry : ClassState depth} :
    Stageable (state.closeSession session candidate) policyClass leaf entry ↔
      Stageable state policyClass leaf entry :=
  ⟨fun ⟨hroom, hentry, hunlanded, hunstaged⟩ => ⟨hroom, hentry, hunlanded, hunstaged⟩,
    fun ⟨hroom, hentry, hunlanded, hunstaged⟩ => ⟨hroom, hentry, hunlanded, hunstaged⟩⟩

theorem vouchFinalize_eq_ok {session : SessionId} {admission : Admission} :
    vouchFinalize session state = .ok admission after ↔
      state.dissolved = false ∧ ∃ opened entry,
        state.sessions[session]? = some opened ∧
        entry.policy.admissionThreshold.toNat ≤ opened.nullifiers.size ∧
        Stageable state opened.target opened.candidate entry ∧
        state.epoch.next = some admission.activeFrom ∧
        admission.position = state.promised opened.target entry ∧
        after = (state.closeSession session opened.candidate).stage opened.target
          opened.candidate := by
  simp only [vouchFinalize, checkLive_bind_eq_ok, translating_eq_ok, get_bind, expect_bind_eq_ok,
    modify_bind, classEntry_bind_eq_ok, ensure_bind_eq_ok, stageAdmission_eq_ok]
  constructor
  · rintro ⟨hlive, opened, hopened, entry, hentry, hmet, other, hstageable, hnext, hposition,
      hafter⟩
    obtain rfl : entry = other := Option.some_inj.1 (hentry.symm.trans hstageable.configured)
    exact ⟨hlive, opened, entry, hopened, hmet, stageable_closeSession.1 hstageable, hnext,
      hposition, hafter⟩
  · rintro ⟨hlive, opened, entry, hopened, hmet, hstageable, hnext, hposition, hafter⟩
    exact ⟨hlive, opened, hopened, entry, hstageable.configured, hmet, entry,
      stageable_closeSession.2 hstageable, hnext, hposition, hafter⟩

-- A session that gathered its target's threshold.
def Met (state : AgoraState depth) (opened : VouchSession) : Prop :=
  ∃ entry : ClassState depth, state.classes[opened.target]? = some entry ∧
    entry.policy.admissionThreshold.toNat ≤ opened.nullifiers.size

-- The session is consumed once it was found; a met threshold consumes the candidacy too.
theorem vouchFinalize_eq_error {session : SessionId} {refusal : ProtocolError}
    (herror : vouchFinalize session state = .error refusal after) :
    (state.dissolved = true ∨ state.sessions[session]? = none) ∧ after = state ∨
      ∃ opened, state.dissolved = false ∧ state.sessions[session]? = some opened ∧
        (¬ Met state opened ∧ after = { state with sessions := state.sessions.erase session } ∨
          Met state opened ∧ (¬ ∃ entry, Stageable state opened.target opened.candidate entry) ∧
            after = state.closeSession session opened.candidate ∨
          Met state opened ∧ state.epoch.next = none ∧
            (∃ entry, Stageable state opened.target opened.candidate entry) ∧
            after = (state.closeSession session opened.candidate).stage opened.target
              opened.candidate) := by
  simp only [vouchFinalize, checkLive_bind_eq_error, translating_eq_error, get_bind,
    expect_bind_eq_error, modify_bind, classEntry_bind_eq_error, ensure_bind_eq_error] at herror
  obtain ⟨hdissolved, _, hafter⟩ | ⟨hlive, _, ⟨hnone, _, hafter⟩ | ⟨opened, hopened,
    ⟨hunconfigured, _, hafter⟩ | ⟨entry, hentry, ⟨hshort, _, hafter⟩ | ⟨hmet, hstage⟩⟩⟩, _⟩ :=
    herror
  · exact Or.inl ⟨Or.inl hdissolved, hafter⟩
  · exact Or.inl ⟨Or.inr hnone, hafter⟩
  · refine Or.inr ⟨opened, hlive, hopened, Or.inl ⟨fun ⟨_, hentry, _⟩ => ?_, hafter⟩⟩
    have hcontrary := hunconfigured.symm.trans hentry
    cases hcontrary
  · refine Or.inr ⟨opened, hlive, hopened, Or.inl ⟨fun ⟨other, hother, hmet⟩ => hshort ?_,
      hafter⟩⟩
    obtain rfl : entry = other := Option.some_inj.1 (hentry.symm.trans hother)
    exact hmet
  · refine Or.inr ⟨opened, hlive, hopened, Or.inr ?_⟩
    rcases stageAdmission_eq_error hstage with ⟨hrefused, rfl⟩ | ⟨hnext, hstageable, rfl⟩
    · refine Or.inl ⟨⟨entry, hentry, hmet⟩, fun ⟨other, hstageable⟩ => hrefused ⟨other, ?_⟩, rfl⟩
      exact stageable_closeSession.2 hstageable
    · obtain ⟨other, hstageable⟩ := hstageable
      exact Or.inr ⟨⟨entry, hentry, hmet⟩, hnext, ⟨other, stageable_closeSession.1 hstageable⟩, rfl⟩

-- A refusal of a session that gathered its threshold is a refusal to stage.
theorem vouchFinalize_eq_error_of_met {session : SessionId} {opened : VouchSession}
    {refusal : ProtocolError} (hlive : state.dissolved = false)
    (hopened : state.sessions[session]? = some opened) (hmet : Met state opened)
    (herror : vouchFinalize session state = .error refusal after) :
    (¬ ∃ entry, Stageable state opened.target opened.candidate entry) ∧
        after = state.closeSession session opened.candidate ∨
      state.epoch.next = none ∧
        (∃ entry, Stageable state opened.target opened.candidate entry) ∧
        after = (state.closeSession session opened.candidate).stage opened.target
          opened.candidate := by
  rcases vouchFinalize_eq_error herror with ⟨hdead | hmissing, _⟩ | ⟨other, _, hother, hrest⟩
  · exact absurd (hlive.symm.trans hdead) (by decide)
  · rw [hopened] at hmissing
    cases hmissing
  · obtain rfl : opened = other := Option.some_inj.1 (hopened.symm.trans hother)
    rcases hrest with ⟨hunmet, _⟩ | ⟨_, hrefused⟩ | ⟨_, hlost⟩
    · exact absurd hmet hunmet
    · exact Or.inl hrefused
    · exact Or.inr hlost

end Nymora.Protocol.Operator.AgoraState
