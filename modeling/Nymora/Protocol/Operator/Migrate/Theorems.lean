import Nymora.Protocol.Operator.Migrate
import Nymora.Protocol.Operator.Vouch.Theorems

namespace Nymora.Protocol.Operator.AgoraState

open Nymora.Core
open Nymora.Accumulator
open Nymora.Circuits
open Nymora.Proofs
open Method

variable {depth : Nat} {state after : AgoraState depth} {system : ProofSystem depth}
  {policyClass : PolicyClass} {proof : system.MigrationProof} {spend : Nullifier}
  {successor : Commitment} {inbox : InboxPublicKey}

-- What an accepted migration was checked against.
structure Migratable (system : ProofSystem depth) (state : AgoraState depth)
    (policyClass : PolicyClass) (proof : system.MigrationProof) (spend : Nullifier)
    (successor : Commitment) (roots : EpochRoots) : Prop where
  unspent : truncateKey spend.asBytes ∉ state.spends.keys
  unstagedSpend : spend ∉ state.staged.spends
  rooted : state.rootsIn state.epoch policyClass = .ok roots
  accepted : verifyMigration system proof state.agora roots.policyClass roots.revocation spend
    successor

-- The three pieces an accepted migration stages.
def stageMigration (state : AgoraState depth) (policyClass : PolicyClass) (spend : Nullifier)
    (successor : Commitment) (inbox : InboxPublicKey) : AgoraState depth :=
  { state with
    staged := { state.staged with
      admissions := state.staged.admissions ++ [(policyClass, successor)]
      spends := state.staged.spends ++ [spend] }
    stagedInboxes := state.stagedInboxes.insert successor inbox }

theorem migrate_eq_ok {admission : Admission} :
    migrate system policyClass proof spend successor inbox state = .ok admission after ↔
      state.dissolved = false ∧ ∃ entry roots,
        Migratable system state policyClass proof spend successor roots ∧
        Stageable state policyClass successor entry ∧
        state.epoch.next = some admission.activeFrom ∧
        admission.position = state.promised policyClass entry ∧
        after = state.stageMigration policyClass spend successor inbox := by
  simp only [migrate, checkLive_bind_eq_ok, translating_eq_ok, get_bind, ensure_bind_eq_ok,
    classEntry_bind_eq_ok, expectOk_bind_eq_ok]
  constructor
  · rintro ⟨hlive, hunspent, entry, hentry, hfresh, roots, hroots, haccepted, hstage⟩
    obtain ⟨_, _, hstage, hrest⟩ := bind_eq_ok.1 hstage
    obtain ⟨other, hstageable, hnext, hposition, rfl⟩ := stageAdmission_eq_ok.1 hstage
    simp only [modify_bind, pure_eq_ok] at hrest
    obtain ⟨rfl, hafter⟩ := hrest
    obtain rfl : entry = other := Option.some_inj.1 (hentry.symm.trans hstageable.configured)
    obtain ⟨hlanded, hstaged⟩ := not_or.1 hunspent
    exact ⟨hlive, entry, roots, ⟨hlanded, hstaged, hroots, haccepted⟩, hstageable, hnext, hposition,
      hafter⟩
  · rintro ⟨hlive, entry, roots, hmigratable, hstageable, hnext, hposition, hafter⟩
    refine ⟨hlive, not_or.2 ⟨hmigratable.unspent, hmigratable.unstagedSpend⟩, entry,
      hstageable.configured, hstageable.unlanded, roots, hmigratable.rooted, hmigratable.accepted,
      bind_eq_ok.2 ⟨admission, state.stage policyClass successor, ?_, ?_⟩⟩
    · exact stageAdmission_eq_ok.2 ⟨entry, hstageable, hnext, hposition, rfl⟩
    · simp only [modify_bind, pure_eq_ok]
      exact ⟨trivial, hafter⟩

-- A refusal writes nothing, except at the last epoch, where the admission is already pushed.
theorem migrate_eq_error {refusal : ProtocolError}
    (herror : migrate system policyClass proof spend successor inbox state =
      .error refusal after) :
    after = state ∧ (state.dissolved = true ∨
        (¬ ∃ roots, Migratable system state policyClass proof spend successor roots) ∨
        ¬ ∃ entry, Stageable state policyClass successor entry) ∨
      state.dissolved = false ∧ state.epoch.next = none ∧
        (∃ roots, Migratable system state policyClass proof spend successor roots) ∧
        (∃ entry, Stageable state policyClass successor entry) ∧
        after = state.stage policyClass successor := by
  simp only [migrate, checkLive_bind_eq_error, translating_eq_error, get_bind,
    ensure_bind_eq_error, classEntry_bind_eq_error, expectOk_bind_eq_error] at herror
  obtain ⟨hdissolved, _, hafter⟩ | ⟨hlive, _, ⟨hspent, _, hafter⟩ | ⟨hunspent,
    ⟨hnone, _, hafter⟩ | ⟨entry, hentry, ⟨hlanded, _, hafter⟩ | ⟨_, ⟨hunrooted, hafter⟩ |
    ⟨roots, hroots, ⟨hrefused, _, hafter⟩ | ⟨haccepted, hrest⟩⟩⟩⟩⟩, _⟩ := herror
  · exact Or.inl ⟨hafter, Or.inl hdissolved⟩
  · refine Or.inl ⟨hafter, Or.inr (Or.inl fun ⟨_, hmigratable⟩ => hspent (not_or.2 ?_))⟩
    exact ⟨hmigratable.unspent, hmigratable.unstagedSpend⟩
  · refine Or.inl ⟨hafter, Or.inr (Or.inr fun ⟨_, hstageable⟩ => ?_)⟩
    rw [hstageable.configured] at hnone
    cases hnone
  · refine Or.inl ⟨hafter, Or.inr (Or.inr fun ⟨other, hstageable⟩ => hlanded ?_)⟩
    obtain rfl : entry = other := Option.some_inj.1 (hentry.symm.trans hstageable.configured)
    exact hstageable.unlanded
  · refine Or.inl ⟨hafter, Or.inr (Or.inl fun ⟨_, hmigratable⟩ => ?_)⟩
    rw [hmigratable.rooted] at hunrooted
    cases hunrooted
  · refine Or.inl ⟨hafter, Or.inr (Or.inl fun ⟨other, hmigratable⟩ => hrefused ?_)⟩
    obtain rfl : roots = other := Except.ok.inj (hroots.symm.trans hmigratable.rooted)
    exact hmigratable.accepted
  · rw [bind_eq_error] at hrest
    simp only [modify_bind, pure_eq_error, and_false, exists_false, or_false] at hrest
    rcases stageAdmission_eq_error hrest with ⟨hunstageable, rfl⟩ | ⟨hnext, hlost⟩
    · exact Or.inl ⟨rfl, Or.inr (Or.inr hunstageable)⟩
    · obtain ⟨hlanded, hstaged⟩ := not_or.1 hunspent
      exact Or.inr ⟨hlive, hnext, ⟨roots, hlanded, hstaged, hroots, haccepted⟩, hlost⟩

end Nymora.Protocol.Operator.AgoraState
