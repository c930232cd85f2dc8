import Nymora.Protocol.Operator.Access
import Nymora.Protocol.Operator.Boundary.Theorems

namespace Nymora.Protocol.Operator.AgoraState

open Nymora.Core
open Nymora.Crypto
open Nymora.Circuits
open Nymora.Proofs
open Method

variable {depth : Nat} {state after : AgoraState depth} {system : ProofSystem depth}

theorem issueChallenge_eq_ok {entropy : Bytes 32} {challenge : Challenge} :
    issueChallenge entropy state = .ok challenge after ↔
      state.dissolved = false ∧ challenge = ⟨entropy⟩ ∧
        after = { state with challenges := state.challenges.insert entropy } := by
  simp only [issueChallenge, checkLive_bind_eq_ok, modify_bind, pure_eq_ok]

theorem issueChallenge_eq_error {entropy : Bytes 32} {refusal : ProtocolError}
    (herror : issueChallenge entropy state = .error refusal after) : after = state := by
  simp only [issueChallenge, checkLive_bind_eq_error, modify_bind, pure_eq_error, and_false,
    or_false] at herror
  exact herror.2.2

-- The state with a presented challenge consumed.
def present (state : AgoraState depth) (challenge : Challenge) : AgoraState depth :=
  { state with challenges := state.challenges.erase challenge.asBytes }

theorem redeemAccess_eq_ok {policyClass : PolicyClass} {proof : system.Proof}
    {challenge : Challenge} {access : MemberAccess} :
    redeemAccess system policyClass proof challenge state = .ok access after ↔
      state.dissolved = false ∧ challenge.asBytes ∈ state.challenges ∧
        (∃ roots, state.rootsIn state.epoch policyClass = .ok roots ∧
          verifyVerificationAccess system proof state.agora state.epoch roots
            challenge.asBytes.toList) ∧
        access = ⟨state.epoch⟩ ∧ after = state.present challenge := by
  simp only [redeemAccess, checkLive_bind_eq_ok, translating_eq_ok, get_bind, ensure_bind_eq_ok,
    modify_bind, expectOk_bind_eq_ok, pure_eq_ok]
  constructor
  · rintro ⟨hlive, hissued, roots, hroots, hproof, hgranted, hafter⟩
    exact ⟨hlive, hissued, ⟨roots, hroots, hproof⟩, hgranted, hafter⟩
  · rintro ⟨hlive, hissued, ⟨roots, hroots, hproof⟩, hgranted, hafter⟩
    exact ⟨hlive, hissued, roots, hroots, hproof, hgranted, hafter⟩

-- An outstanding challenge is consumed whether the proof holds or not.
theorem redeemAccess_eq_error {policyClass : PolicyClass} {proof : system.Proof}
    {challenge : Challenge} {refusal : ProtocolError}
    (herror : redeemAccess system policyClass proof challenge state = .error refusal after) :
    after = state ∨ after = state.present challenge := by
  simp only [redeemAccess, checkLive_bind_eq_error, translating_eq_error, get_bind,
    ensure_bind_eq_error, modify_bind, expectOk_bind_eq_error, pure_eq_error, and_false,
    or_false] at herror
  obtain ⟨_, _, hafter⟩ | ⟨_, _, hchecks, _⟩ := herror
  · exact Or.inl hafter
  · obtain ⟨_, _, hafter⟩ | ⟨_, ⟨_, hafter⟩ | ⟨_, _, _, _, hafter⟩⟩ := hchecks
    · exact Or.inl hafter
    · exact Or.inr hafter
    · exact Or.inr hafter

-- A gated method runs past its gate for a capability of the current epoch.
theorem admitAccess_bind_eq_ok {α : Type} {access : MemberAccess}
    {rest : Unit → EStateM Rejection (AgoraState depth) α} {result : α} :
    (admitAccess access >>= rest) state = .ok result after ↔
      state.dissolved = false ∧ access.epoch = state.epoch ∧ rest () state = .ok result after := by
  simp only [admitAccess, bind_assoc, live_bind_eq_ok, get_bind, ensure_bind_eq_ok]

theorem verifyAttestation_eq_ok {access : MemberAccess} {policyClass : PolicyClass} {epoch : Epoch}
    {proof : system.Proof} {message : MessageHash} {nullifier : Nullifier} {accepted : Bool} :
    verifyAttestation system access policyClass epoch proof message nullifier state =
      .ok accepted after ↔
      state.dissolved = false ∧ access.epoch = state.epoch ∧
        (∃ roots, state.rootsIn epoch policyClass = .ok roots ∧
          accepted = verifyAuthorship system proof state.agora epoch roots message nullifier) ∧
        after = state := by
  simp only [verifyAttestation, translating_eq_ok, admitAccess_bind_eq_ok, get_bind,
    expectOk_bind_eq_ok, pure_eq_ok]
  constructor
  · rintro ⟨hlive, hepoch, roots, hroots, haccepted, hafter⟩
    exact ⟨hlive, hepoch, ⟨roots, hroots, haccepted⟩, hafter⟩
  · rintro ⟨hlive, hepoch, ⟨roots, hroots, haccepted⟩, hafter⟩
    exact ⟨hlive, hepoch, roots, hroots, haccepted, hafter⟩

theorem rootsAt_eq_ok {access : MemberAccess} {policyClass : PolicyClass} {epoch : Epoch}
    {roots : EpochRoots} :
    rootsAt access policyClass epoch state = .ok roots after ↔
      state.dissolved = false ∧ access.epoch = state.epoch ∧
        state.rootsIn epoch policyClass = .ok roots ∧ after = state := by
  simp only [rootsAt, translating_eq_ok, admitAccess_bind_eq_ok, get_bind, expectOk_eq_ok]

theorem tagKeyAt_eq_ok [Primitives] {access : MemberAccess} {epoch : Epoch} {key : TagKey} :
    tagKeyAt access epoch state = .ok key after ↔
      state.dissolved = false ∧ access.epoch = state.epoch ∧ epoch.get ≤ state.epoch.get ∧
        key = deriveTagKey state.tagSecret.toList state.agora epoch ∧ after = state := by
  simp only [tagKeyAt, translating_eq_ok, admitAccess_bind_eq_ok, get_bind, ensure_bind_eq_ok,
    pure_eq_ok, gt_iff_lt, Nat.not_lt]

theorem revocationKeys_eq_ok {access : MemberAccess} {keys : List (Bytes 32)} :
    revocationKeys access state = .ok keys after ↔
      state.dissolved = false ∧ access.epoch = state.epoch ∧ keys = state.revocations.keys ∧
        after = state := by
  simp only [revocationKeys, translating_eq_ok, admitAccess_bind_eq_ok, get_bind, pure_eq_ok]

-- What shuts the gate: dissolution, and a capability of another epoch.
def Shut (state : AgoraState depth) (access : MemberAccess) : Prop :=
  state.dissolved = true ∨ access.epoch ≠ state.epoch

theorem admitAccess_of_shut {access : MemberAccess} (hshut : Shut state access) :
    ∃ refusal, admitAccess access state = .error refusal state := by
  cases hdissolved : state.dissolved with
  | true =>
      exact ⟨.because .Dissolved, bind_eq_error.2 (Or.inl (live_eq_error.2 ⟨hdissolved, rfl, rfl⟩))⟩
  | false =>
      have hepoch : access.epoch ≠ state.epoch := by
        refine hshut.resolve_left ?_
        rw [hdissolved]
        decide
      refine ⟨.because .EpochOutOfRange, bind_eq_error.2 (Or.inr ⟨(), state,
        live_eq_ok.2 ⟨hdissolved, rfl⟩, bind_eq_error.2 (Or.inr ⟨state, state, rfl, ?_⟩)⟩)⟩
      exact ensure_eq_error.2 ⟨hepoch, rfl, rfl⟩

-- Every gated method refuses a capability.
structure Bars [Primitives] (system : ProofSystem depth) (state : AgoraState depth)
    (access : MemberAccess) : Prop where
  roots : ∀ policyClass epoch, ∃ refusal,
    rootsAt access policyClass epoch state = .error refusal state
  revocations : ∃ refusal, revocationKeys access state = .error refusal state
  spends : ∃ refusal, spendKeys access state = .error refusal state
  attestation : ∀ policyClass epoch proof message nullifier, ∃ refusal,
    verifyAttestation system access policyClass epoch proof message nullifier state =
      .error refusal state
  tagKey : ∀ epoch, ∃ refusal, tagKeyAt access epoch state = .error refusal state

-- The gated methods refuse a capability exactly where the gate is shut.
theorem bars_iff [Primitives] {access : MemberAccess} :
    Bars system state access ↔ Shut state access := by
  constructor
  · intro hbars
    by_contra hopen
    obtain ⟨hlive, hepoch⟩ := not_or.1 hopen
    obtain ⟨refusal, hrefused⟩ := hbars.revocations
    have hserved : revocationKeys access state = .ok state.revocations.keys state :=
      revocationKeys_eq_ok.2 ⟨Bool.eq_false_iff.2 hlive, not_not.1 hepoch, rfl, rfl⟩
    rw [hserved] at hrefused
    cases hrefused
  · intro hshut
    obtain ⟨refusal, hrefusal⟩ := admitAccess_of_shut hshut
    have hgated : ∀ {result : Type} (rest : Unit → EStateM Rejection (AgoraState depth) result),
        ∃ refusal, translating Rejection.into (admitAccess access >>= rest) state =
          .error refusal state := by
      intro result rest
      exact ⟨refusal.into, translating_eq_error.2
        ⟨refusal, bind_eq_error.2 (Or.inl hrefusal), rfl⟩⟩
    exact ⟨fun _ _ => hgated _, hgated _, hgated _, fun _ _ _ _ _ => hgated _, fun _ => hgated _⟩

theorem bars_of_ne [Primitives] {access : MemberAccess} (hepoch : access.epoch ≠ state.epoch) :
    Bars system state access :=
  bars_iff.2 (Or.inr hepoch)

end Nymora.Protocol.Operator.AgoraState
