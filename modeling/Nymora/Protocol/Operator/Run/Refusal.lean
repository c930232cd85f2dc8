import Nymora.Protocol.Operator.Run.Migration

namespace Nymora.Protocol.Operator.AgoraState

open Nymora.Core
open Nymora.Crypto
open Nymora.Accumulator
open Nymora.Circuits
open Nymora.Proofs
open Method
open Std (ExtTreeMap ExtTreeSet)

variable {depth : Nat} {system : ProofSystem depth} {state after : AgoraState depth}

-- What a refusal is documented to consume.
inductive Consumption (state : AgoraState depth) : Call system → AgoraState depth → Prop
  | session {session : SessionId} :
      Consumption state (.vouchFinalize session)
        { state with sessions := state.sessions.erase session }
  | challenge {policyClass : PolicyClass} {proof : system.Proof} {challenge : Challenge} :
      Consumption state (.redeemAccess policyClass proof challenge) (state.present challenge)
  | proposal {subject : SubjectId} {proposal : Proposal} (hcarried : Carried state subject proposal) :
      Consumption state (.execute subject) (state.consume subject)

-- What keeps a call from writing ahead of a step that refuses.
def Lossless (state : AgoraState depth) : Call system → Prop
  | .vouchFinalize session => state.dissolved = false → ∀ opened : VouchSession,
      state.sessions[session]? = some opened → Met state opened →
        ((∃ entry, Stageable state opened.target opened.candidate entry) →
          state.epoch.next ≠ none) ∧
        ((¬ ∃ entry, Stageable state opened.target opened.candidate entry) →
          opened.candidate ∉ state.pending)
  | .migrate policyClass proof spend successor _ => state.dissolved = false →
      (∃ roots, Migratable system state policyClass proof spend successor roots) →
        (∃ entry, Stageable state policyClass successor entry) → state.epoch.next ≠ none
  | .execute subject => ∀ proposal, Carried state subject proposal →
      (∃ leaf, proposal.decision = .Revocation leaf) → state.epoch.next = none → state.staged = {}
  | .advanceEpoch => state.dissolved = false → state.epoch.next = none → state.staged = {}
  | _ => True

variable [Primitives]

-- A call whose refusal leaves the state as it was, short of what it is documented to consume.
def RefusesCleanly (state : AgoraState depth) (call : Call system) : Prop :=
  ∀ refusal after, step system state call = (.error refusal, after) →
    after = state ∨ Consumption state call after

omit [Primitives] in
theorem erase_eq_self {set : ExtTreeSet Commitment} {leaf : Commitment} (hleaf : leaf ∉ set) :
    set.erase leaf = set := by
  apply ExtTreeSet.ext_mem
  intro other
  rw [ExtTreeSet.mem_erase, ne_eq, Std.compare_eq_iff_eq]
  constructor
  · exact And.right
  · intro hother
    exact ⟨fun heq => hleaf (heq ▸ hother), hother⟩

-- A call that cannot succeed refuses, and leaves what its refusals leave.
theorem exists_refusal {call : Call system} {left : AgoraState depth}
    (hok : ∀ reply after, perform system call state ≠ .ok reply after)
    (herror : ∀ refusal after, perform system call state = .error refusal after → after = left) :
    ∃ refusal, step system state call = (.error refusal, left) := by
  cases hcall : perform system call state with
  | ok reply after => exact absurd hcall (hok reply after)
  | error refusal after =>
      obtain rfl := herror refusal after hcall
      exact ⟨refusal, step_eq_error.2 hcall⟩

omit [Primitives] in
-- Staging shows in the staged list.
theorem staged_stage_ne (state : AgoraState depth) (policyClass : PolicyClass)
    (leaf : Commitment) : (state.stage policyClass leaf).staged ≠ state.staged := by
  intro hstaged
  have hlength := congrArg (·.admissions.length) hstaged
  simp [stage] at hlength

omit [Primitives] in
theorem Consumption.keeps {call : Call system} (hconsumed : Consumption state call after) :
    after.pending = state.pending ∧ after.staged = state.staged ∧
      after.stagedInboxes = state.stagedInboxes := by
  cases hconsumed <;> exact ⟨rfl, rfl, rfl⟩

-- A clean refusal keeps the candidacies and everything staged.
theorem RefusesCleanly.keeps {call : Call system} {refusal : ProtocolError}
    (hclean : RefusesCleanly state call)
    (hrefused : step system state call = (.error refusal, after)) :
    after.pending = state.pending ∧ after.staged = state.staged ∧
      after.stagedInboxes = state.stagedInboxes := by
  rcases hclean refusal after hrefused with rfl | hconsumed
  · exact ⟨rfl, rfl, rfl⟩
  · exact hconsumed.keeps

section Finalize

variable {session : SessionId} {opened : VouchSession} (hlive : state.dissolved = false)
  (hopened : state.sessions[session]? = some opened) (hmet : Met state opened)

include hlive hopened hmet

-- A finalization that finds no place drops the candidacy with the session.
theorem finalize_drops_candidacy
    (hunstageable : ¬ ∃ entry, Stageable state opened.target opened.candidate entry) :
    ∃ refusal, step system state (.vouchFinalize session) =
      (.error refusal, state.closeSession session opened.candidate) := by
  refine exists_refusal ?_ ?_
  · intro reply after hok
    rw [perform, bind_pure_eq_ok] at hok
    obtain ⟨admission, hmethod, _⟩ := hok
    obtain ⟨_, other, entry, hother, _, hstageable, _⟩ := vouchFinalize_eq_ok.1 hmethod
    obtain rfl : opened = other := Option.some_inj.1 (hopened.symm.trans hother)
    exact hunstageable ⟨entry, hstageable⟩
  · intro refusal after herror
    rw [perform, bind_pure_eq_error] at herror
    rcases vouchFinalize_eq_error_of_met hlive hopened hmet herror with ⟨_, hafter⟩ |
      ⟨_, hstageable, _⟩
    · exact hafter
    · exact absurd hstageable hunstageable

-- At the last epoch a refused finalization leaves its admission staged.
theorem finalize_leaves_admission (hnext : state.epoch.next = none)
    (hstageable : ∃ entry, Stageable state opened.target opened.candidate entry) :
    ∃ refusal, step system state (.vouchFinalize session) = (.error refusal,
      (state.closeSession session opened.candidate).stage opened.target opened.candidate) := by
  refine exists_refusal ?_ ?_
  · intro reply after hok
    rw [perform, bind_pure_eq_ok] at hok
    obtain ⟨admission, hmethod, _⟩ := hok
    obtain ⟨_, _, _, _, _, _, hfollowing, _⟩ := vouchFinalize_eq_ok.1 hmethod
    rw [hnext] at hfollowing
    cases hfollowing
  · intro refusal after herror
    rw [perform, bind_pure_eq_error] at herror
    rcases vouchFinalize_eq_error_of_met hlive hopened hmet herror with ⟨hunstageable, _⟩ |
      ⟨_, _, hafter⟩
    · exact absurd hstageable hunstageable
    · exact hafter

end Finalize

theorem refusesCleanly_vouchFinalize_iff {session : SessionId} :
    RefusesCleanly state (.vouchFinalize session : Call system) ↔
      Lossless state (.vouchFinalize session : Call system) := by
  constructor
  · intro hclean hlive opened hopened hmet
    constructor
    · intro hstageable hnext
      obtain ⟨refusal, hrefused⟩ :=
        @finalize_leaves_admission _ system _ _ _ _ hlive hopened hmet hnext hstageable
      exact staged_stage_ne _ _ _ (hclean.keeps hrefused).2.1
    · intro hunstageable hpending
      obtain ⟨refusal, hrefused⟩ :=
        @finalize_drops_candidacy _ system _ _ _ _ hlive hopened hmet hunstageable
      have hkept := (hclean.keeps hrefused).1
      rw [← hkept] at hpending
      exact (ExtTreeSet.mem_erase.1 hpending).1 (Std.compare_eq_iff_eq.2 rfl)
  · intro hlossless refusal after hrefused
    rw [step_eq_error, perform, bind_pure_eq_error] at hrefused
    rcases vouchFinalize_eq_error hrefused with ⟨_, rfl⟩ | ⟨opened, hlive, hopened, ⟨_, rfl⟩ |
      ⟨hmet, hunstageable, rfl⟩ | ⟨hmet, hnext, hstageable, rfl⟩⟩
    · exact Or.inl rfl
    · exact Or.inr .session
    · have hpending := (hlossless hlive opened hopened hmet).2 hunstageable
      have hsame : state.closeSession session opened.candidate =
          { state with sessions := state.sessions.erase session } := by
        rw [closeSession, erase_eq_self hpending]
      rw [hsame]
      exact Or.inr .session
    · exact absurd hnext ((hlossless hlive opened hopened hmet).1 hstageable)

theorem refusesCleanly_migrate_iff {policyClass : PolicyClass} {proof : system.MigrationProof}
    {spend : Nullifier} {successor : Commitment} {inbox : InboxPublicKey} :
    RefusesCleanly state (.migrate policyClass proof spend successor inbox : Call system) ↔
      Lossless state (.migrate policyClass proof spend successor inbox : Call system) := by
  constructor
  · intro hclean hlive hmigratable hstageable hnext
    -- At the last epoch a refused migration leaves its admission staged.
    obtain ⟨refusal, hrefused⟩ : ∃ refusal, step system state
        (.migrate policyClass proof spend successor inbox) =
          (.error refusal, state.stage policyClass successor) := by
      refine exists_refusal ?_ ?_
      · intro reply after hok
        rw [perform, bind_pure_eq_ok] at hok
        obtain ⟨admission, hmethod, _⟩ := hok
        obtain ⟨_, _, _, _, _, hfollowing, _⟩ := migrate_eq_ok.1 hmethod
        rw [hnext] at hfollowing
        cases hfollowing
      · intro refusal after herror
        rw [perform, bind_pure_eq_error] at herror
        rcases migrate_eq_error herror with ⟨_, hdead | hunmigratable | hunstageable⟩ |
          ⟨_, _, _, _, hafter⟩
        · exact absurd (hlive.symm.trans hdead) (by decide)
        · exact absurd hmigratable hunmigratable
        · exact absurd hstageable hunstageable
        · exact hafter
    exact staged_stage_ne _ _ _ (hclean.keeps hrefused).2.1
  · intro hlossless refusal after hrefused
    rw [step_eq_error, perform, bind_pure_eq_error] at hrefused
    rcases migrate_eq_error hrefused with ⟨hsame, _⟩ | ⟨hlive, hnext, hmigratable, hstageable, _⟩
    · exact Or.inl hsame
    · exact absurd hnext (hlossless hlive hmigratable hstageable)

theorem refusesCleanly_execute_iff {subject : SubjectId} (hprovisioned : state.Provisioned) :
    RefusesCleanly state (.execute subject : Call system) ↔
      Lossless state (.execute subject : Call system) := by
  constructor
  · rintro hclean proposal hcarried ⟨leaf, hdecision⟩ hnext
    -- At the last epoch a refused revocation drops what was staged.
    obtain ⟨refusal, hrefused⟩ : ∃ refusal, step system state (.execute subject) =
        (.error refusal, (state.consume subject).unstage) := by
      refine exists_refusal ?_ ?_
      · intro reply after hok
        rw [perform, bind_pure_eq_ok] at hok
        obtain ⟨executed, hmethod, _⟩ := hok
        obtain ⟨other, hother, heffect⟩ := effect_of_execute hmethod
        obtain rfl : proposal = other :=
          Option.some_inj.1 (hcarried.raised.symm.trans hother.raised)
        rw [hdecision] at heffect
        cases heffect with
        | revocation hboundary =>
            have hfollowing := hnext.symm.trans hboundary.following
            cases hfollowing
      · intro refusal after herror
        rw [perform, bind_pure_eq_error] at herror
        rcases execute_eq_error hprovisioned herror with ⟨huncarried, _⟩ | ⟨other, hother,
          ⟨hunrevoking, _⟩ | ⟨_, _, hafter⟩⟩
        · exact absurd ⟨proposal, hcarried⟩ huncarried
        · obtain rfl : proposal = other :=
            Option.some_inj.1 (hcarried.raised.symm.trans hother.raised)
          exact absurd hdecision (hunrevoking leaf)
        · exact hafter
    exact (hclean.keeps hrefused).2.1.symm
  · intro hlossless refusal after hrefused
    rw [step_eq_error, perform, bind_pure_eq_error] at hrefused
    rcases execute_eq_error hprovisioned hrefused with ⟨_, hsame⟩ | ⟨proposal, hcarried,
      ⟨_, rfl⟩ | ⟨hrevoking, hnext, rfl⟩⟩
    · exact Or.inl hsame
    · exact Or.inr (.proposal hcarried)
    · have hstaged := hlossless proposal hcarried hrevoking hnext
      have hsame : (state.consume subject).unstage = state.consume subject := by
        rw [unstage, consume, ← hstaged]
      rw [hsame]
      exact Or.inr (.proposal hcarried)

theorem refusesCleanly_advanceEpoch_iff (hprovisioned : state.Provisioned) :
    RefusesCleanly state (.advanceEpoch : Call system) ↔
      Lossless state (.advanceEpoch : Call system) := by
  constructor
  · intro hclean hlive hnext
    -- The last epoch's boundary drops what was staged.
    obtain ⟨refusal, hrefused⟩ : ∃ refusal, step system state .advanceEpoch =
        (.error refusal, state.unstage) := by
      refine exists_refusal ?_ ?_
      · intro reply after hok
        rw [perform, bind_pure_eq_ok] at hok
        obtain ⟨envelope, hmethod, _⟩ := hok
        obtain ⟨_, ⟨next, hboundary⟩, _⟩ := boundary_of_advanceEpoch hmethod
        have hfollowing := hnext.symm.trans hboundary.following
        cases hfollowing
      · intro refusal after herror
        rw [perform, bind_pure_eq_error] at herror
        rcases advanceEpoch_eq_error hprovisioned herror with ⟨hdead, _⟩ | ⟨_, _, hafter⟩
        · exact absurd (hlive.symm.trans hdead) (by decide)
        · exact hafter
    exact (hclean.keeps hrefused).2.1.symm
  · intro hlossless refusal after hrefused
    rw [step_eq_error, perform, bind_pure_eq_error] at hrefused
    rcases advanceEpoch_eq_error hprovisioned hrefused with ⟨_, hsame⟩ | ⟨hlive, hnext, rfl⟩
    · exact Or.inl hsame
    · have hstaged := hlossless hlive hnext
      exact Or.inl (by rw [unstage, ← hstaged])

-- In every reachable state, over any proof system, a refused call changes nothing but what it is
-- documented to consume exactly where no write comes ahead of a step that refuses.
theorem refusals_change_nothing {founding : Founding} {tagSecret statementEntropy : Bytes 32}
    {logSeed : Option (Bytes 32)} {created : AgoraState depth} {history : History system}
    (hcreate : create founding tagSecret statementEntropy logSeed = .ok created)
    (hexecution : Execution system created history state) (call : Call system) :
    RefusesCleanly state call ↔ Lossless state call := by
  have hprovisioned : state.Provisioned :=
    (hexecution.sound (fresh_of_create hcreate).sound).provisioned
  cases call with
  | vouchFinalize session => exact refusesCleanly_vouchFinalize_iff
  | migrate policyClass proof spend successor inbox => exact refusesCleanly_migrate_iff
  | execute subject => exact refusesCleanly_execute_iff hprovisioned
  | advanceEpoch => exact refusesCleanly_advanceEpoch_iff hprovisioned
  | redeemAccess policyClass proof challenge =>
      refine iff_of_true ?_ trivial
      intro refusal after hrefused
      have htransition := transition_of_error hprovisioned (step_eq_error.1 hrefused)
      cases htransition with
      | refused => exact Or.inl rfl
      | redeemConsumed => exact Or.inr .challenge
  | _ =>
      refine iff_of_true ?_ trivial
      intro refusal after hrefused
      have htransition := transition_of_error hprovisioned (step_eq_error.1 hrefused)
      cases htransition
      exact Or.inl rfl

end Nymora.Protocol.Operator.AgoraState

namespace Nymora.Protocol.Operator.AgoraState.Sample

open Nymora.Core
open Nymora.Crypto
open scoped Nymora.Crypto.Reference

def laterEntropy : Bytes 32 := Bytes.replicate 32 10

def laterSession : SessionId := .fromBytes laterEntropy

-- Two sessions race for one candidate, who announces itself again after the first has won.
def racing : List (Call (accepting 2)) :=
  [.credentialsInit candidate address, .startVouch candidate members entropy,
    .vouchAttest session () nullifier, .startVouch candidate members laterEntropy,
    .vouchAttest laterSession () nullifier, .vouchFinalize session,
    .credentialsInit candidate address]

def raced : AgoraState 2 := reached (accepting 2) start racing

theorem refusals_change_nothing_raced :
    RefusesCleanly raced (.vouchFinalize laterSession : Call (accepting 2)) ↔
      Lossless raced (.vouchFinalize laterSession : Call (accepting 2)) :=
  refusals_change_nothing create_start (execution_played racing) _

-- A founding at the last epoch.
def lasting : Founding := { founding with genesis := ⟨2 ^ 64 - 1, by decide⟩ }

theorem lasts :
    (create lasting entropy entropy none : Except _ (AgoraState 2)).toOption.isSome := by
  decide +kernel

def last : AgoraState 2 := (create lasting entropy entropy none).toOption.get lasts

-- The later finalization is refused and takes the renewed candidacy with it; at the last epoch a
-- refused migration stays staged, and a refused boundary drops it.
theorem refusals_change_state :
    (step (accepting 2) raced (.vouchFinalize laterSession)).1 = .error .Rejected ∧
      ¬ RefusesCleanly raced (.vouchFinalize laterSession : Call (accepting 2)) ∧
      create lasting entropy entropy none = .ok last ∧
      (step (accepting 2) last migrating).1 = .error .Rejected ∧
      (step (accepting 2) last migrating).2.staged.admissions = [(members, candidate)] ∧
      (step (accepting 2) (step (accepting 2) last migrating).2 .advanceEpoch).1 =
        .error .Unavailable ∧
      (step (accepting 2) (step (accepting 2) last migrating).2 .advanceEpoch).2.staged.admissions
        = [] := by
  have hrefused : (step (accepting 2) raced (.vouchFinalize laterSession)).1 = .error .Rejected := by
    decide +kernel
  refine ⟨hrefused, ?_, eq_ok_get lasts, by decide +kernel, by decide +kernel, by decide +kernel,
    by decide +kernel⟩
  intro hclean
  have hkept := (hclean.keeps (Prod.ext hrefused rfl)).1
  have hpending : candidate ∈ raced.pending := by decide +kernel
  have hdropped : candidate ∉ (step (accepting 2) raced (.vouchFinalize laterSession)).2.pending := by
    decide +kernel
  exact hdropped (hkept ▸ hpending)

end Nymora.Protocol.Operator.AgoraState.Sample
