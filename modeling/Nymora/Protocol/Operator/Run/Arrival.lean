import Nymora.Protocol.Operator.Run.Migration
import Nymora.Protocol.Operator.Run.Revocation

namespace Nymora.Protocol.Operator.AgoraState

open Nymora.Core
open Nymora.Crypto
open Nymora.Accumulator
open Nymora.Circuits
open Nymora.Proofs
open Std (ExtTreeMap ExtTreeSet)

variable {depth : Nat} {system : ProofSystem depth}

-- A leaf that a step lands in a class.
def Lands (event : Event system) (policyClass : PolicyClass) (leaf : Commitment) : Prop :=
  ∃ entry landed : ClassState depth, event.before.classes[policyClass]? = some entry ∧
    leaf ∉ entry.positions ∧ event.after.classes[policyClass]? = some landed ∧
    leaf ∈ landed.positions

-- A leaf that the next boundary leaves with a live registration: a key is staged for it, or the
-- registration it has reaches past the boundary.
def Addressed (state : AgoraState depth) (leaf : Commitment) : Prop :=
  state.stagedInboxes[leaf]?.isSome ∨ ∃ record, state.inboxes[leaf]? = some record ∧
    state.epoch.get + 1 - record.since.get < state.inboxHorizon.toNat

variable [Primitives] {before after : AgoraState depth} {history : History system}

-- A leaf registered after a step, whose ciphertext for the class is in the envelope handed out
-- there whenever its key agrees contributorily. A tree has no more slots than its 64-bit
-- positions count.
def Registers (event : Event system) (policyClass : PolicyClass) (leaf : Commitment) : Prop :=
  ∃ key, event.after.inboxLive leaf = some key ∧
    ∀ envelope, HandsOut event envelope →
      (Inbox.agree event.after.ephemeralSecretNow key).isSome →
        ∀ (landed : ClassState depth) (position : Nat),
          event.after.classes[policyClass]? = some landed → landed.tree.leaves.length ≤ 2 ^ 64 →
            landed.positions[leaf]? = some position →
              ∃ ciphertext ∈ envelope.ciphertexts,
                event.after.ciphertextFor policyClass landed position leaf = some ciphertext

theorem Transition.registers {call : Call system} {outcome : Outcome} {policyClass : PolicyClass}
    {leaf : Commitment} (htransition : Transition system before call outcome after)
    (hlive : (after.inboxLive leaf).isSome) :
    Registers (⟨before, call, outcome, after⟩ : Event system) policyClass leaf := by
  obtain ⟨key, hkey⟩ := Option.isSome_iff_exists.1 hlive
  refine ⟨key, hkey, ?_⟩
  intro envelope henvelope hagrees landed position hlanded hcounted hposition
  obtain ⟨ciphertext, hciphertext⟩ :=
    exists_ciphertextFor policyClass hcounted hposition ⟨hkey, hagrees⟩
  refine ⟨ciphertext, ?_, hciphertext⟩
  rw [(htransition.handsOut henvelope).1]
  exact mem_ciphertextsNow.2 ⟨policyClass, landed, position, leaf, hlanded, hposition, hciphertext⟩

-- What a boundary lands is what was staged.
theorem Transition.lands_iff {call : Call system} {outcome : Outcome} {policyClass : PolicyClass}
    {leaf : Commitment} (hprovisioned : before.Provisioned)
    (htransition : Transition system before call outcome after)
    (hturns : Turns (⟨before, call, outcome, after⟩ : Event system)) :
    Lands (⟨before, call, outcome, after⟩ : Event system) policyClass leaf ↔
      (policyClass, leaf) ∈ before.staged.admissions := by
  obtain ⟨_, ready, next, hready, hboundary⟩ := htransition.boundary_of_turns hturns
  constructor
  · rintro ⟨entry, landed, hentry, hunlanded, hlanded, hleaf⟩
    obtain ⟨later, hlater, hlands⟩ := hboundary.lands policyClass entry (by
      rw [hready.quiet.classes]
      exact hentry)
    obtain rfl : landed = later := Option.some_inj.1 (hlanded.symm.trans hlater)
    rw [hready.admissions] at hlands
    exact mem_stagedFor.1 ((hlands.mem_positions.1 hleaf).resolve_left hunlanded)
  · intro hstaged
    obtain ⟨entry, hentry⟩ := Option.isSome_iff_exists.1
      (ExtTreeMap.mem_iff_isSome_getElem?.1 (hprovisioned.configured _ hstaged))
    obtain ⟨landed, hlanded, hlands⟩ := hboundary.lands policyClass entry (by
      rw [hready.quiet.classes]
      exact hentry)
    rw [hready.admissions] at hlands
    exact ⟨entry, landed, hentry, hprovisioned.unlanded policyClass entry leaf hentry hstaged,
      hlanded, hlands.mem_positions.2 (Or.inr (mem_stagedFor.2 hstaged))⟩

-- A boundary leaves a landing leaf live exactly when it was addressed.
theorem Transition.inboxLive_iff {call : Call system} {outcome : Outcome} {leaf : Commitment}
    (htransition : Transition system before call outcome after)
    (hturns : Turns (⟨before, call, outcome, after⟩ : Event system))
    (hhorizon : MIN_INBOX_HORIZON ≤ before.inboxHorizon)
    (hstaged : leaf ∈ before.staged.admissions.map Prod.snd)
    (hunrevoked : leaf ∉ after.revokedLeaves) :
    (after.inboxLive leaf).isSome ↔ Addressed before leaf := by
  obtain ⟨_, ready, next, hready, hboundary⟩ := htransition.boundary_of_turns hturns
  have hpositive : 0 < before.inboxHorizon.toNat :=
    Nat.lt_of_lt_of_le (by decide) (UInt64.le_iff_toNat_le.1 hhorizon)
  have hepoch : after.epoch.get = before.epoch.get + 1 := by
    rw [hboundary.epoch_get, hready.quiet.epoch]
  have hkept : after.inboxHorizon = before.inboxHorizon :=
    hboundary.inboxHorizon.trans hready.quiet.inboxHorizon
  have hinbox := hboundary.inboxes leaf
  rw [hready.admissions, if_pos hstaged, hready.stagedInboxes, hready.inboxes] at hinbox
  simp only [Option.isSome_iff_exists, inboxLive_eq_some, hepoch, hkept, Addressed]
  cases hkey : before.stagedInboxes[leaf]? with
  | some key =>
      -- The boundary registers the staged key, and no horizon is shorter than the boundary.
      rw [hkey, Option.map_some, Option.some_or] at hinbox
      refine iff_of_true ⟨key, hunrevoked, ⟨key, next⟩, hinbox, ?_, rfl⟩ (Or.inl ⟨key, rfl⟩)
      rw [← hboundary.epoch, hepoch, Nat.sub_self]
      exact hpositive
  | none =>
      rw [hkey, Option.map_none, Option.none_or] at hinbox
      rw [hinbox]
      constructor
      · rintro ⟨key, _, record, hrecord, hage, _⟩
        exact Or.inr ⟨record, hrecord, hage⟩
      · rintro (⟨key, hnone⟩ | ⟨record, hrecord, hage⟩)
        · cases hnone
        · exact ⟨record.key, hunrevoked, record, hrecord, hage, rfl⟩

-- In every run over any proof system, a landing registers delivery exactly where each landing
-- leaf has a key staged or a registration reaching past the boundary.
theorem landing_registers_delivery {founding : Founding}
    {tagSecret statementEntropy : Bytes 32} {logSeed : Option (Bytes 32)}
    {created state : AgoraState depth}
    (hcreate : create founding tagSecret statementEntropy logSeed = .ok created)
    (hexecution : Execution system created history state) :
    (∀ event ∈ history, Turns event → ∀ policyClass leaf, Lands event policyClass leaf →
      leaf ∉ event.after.revokedLeaves → Registers event policyClass leaf) ↔
    ∀ event ∈ history, Turns event → ∀ leaf ∈ event.before.staged.admissions.map Prod.snd,
      ¬ RevokedPast event leaf → Addressed event.before leaf := by
  have hfresh := fresh_of_create hcreate
  have hat : ∀ event ∈ history, event.before.Provisioned ∧
      MIN_INBOX_HORIZON ≤ event.before.inboxHorizon ∧
      Transition system event.before event.call event.outcome event.after := by
    intro event hevent
    obtain ⟨earlier, later, rfl⟩ := List.append_of_mem hevent
    obtain ⟨hearlier, hbefore, htransition, _, _⟩ := hexecution.at_event hfresh.sound
    exact ⟨hbefore.provisioned, (hearlier.governed hfresh).settled.horizon, htransition⟩
  constructor
  · intro hregisters event hevent hturns leaf hstaged hunrevoked
    obtain ⟨hprovisioned, hhorizon, htransition⟩ := hat event hevent
    rw [← htransition.revokedLeaves_of_turns hturns] at hunrevoked
    obtain ⟨⟨policyClass, staged⟩, hadmission, rfl⟩ := List.mem_map.1 hstaged
    obtain ⟨key, hkey, _⟩ := hregisters event hevent hturns policyClass staged
      ((htransition.lands_iff hprovisioned hturns).2 hadmission) hunrevoked
    exact (htransition.inboxLive_iff hturns hhorizon hstaged hunrevoked).1
      (by rw [hkey]; rfl)
  · intro haddressed event hevent hturns policyClass leaf hlands hunrevoked
    obtain ⟨hprovisioned, hhorizon, htransition⟩ := hat event hevent
    have hadmission := (htransition.lands_iff hprovisioned hturns).1 hlands
    have hstaged : leaf ∈ event.before.staged.admissions.map Prod.snd :=
      List.mem_map.2 ⟨_, hadmission, rfl⟩
    refine htransition.registers ((htransition.inboxLive_iff hturns hhorizon hstaged
      hunrevoked).2 (haddressed event hevent hturns leaf hstaged ?_))
    rwa [← htransition.revokedLeaves_of_turns hturns]

end Nymora.Protocol.Operator.AgoraState

namespace Nymora.Protocol.Operator.AgoraState.Sample

open Nymora.Core
open Nymora.Crypto
open scoped Nymora.Crypto.Reference

-- The candidate migrates in while pending, so that its only staged key lands with it; the
-- members shorten the horizon, the registration lapses, and the pending leaf lands again.
def shortening : Decision := .InboxHorizon 7

def shorteningSubject : SubjectId :=
  subjectId founding.agora (.new 1) members shortening entropy

def neglecting : List (Call (accepting 2)) :=
  [.credentialsInit candidate address, migrating, .advanceEpoch,
    .propose shortening members entropy, .approve shorteningSubject () nullifier,
    .execute shorteningSubject, .advanceEpoch, .advanceEpoch, .advanceEpoch, .advanceEpoch,
    .advanceEpoch, .advanceEpoch, .startVouch candidate guests entropy,
    .vouchAttest session () nullifier, .vouchFinalize session]

def neglected : Event (accepting 2) := playing (accepting 2) start neglecting .advanceEpoch

theorem played_neglected : played (accepting 2) start (neglecting ++ [.advanceEpoch]) =
    played (accepting 2) start neglecting ++ [neglected] :=
  played_split neglecting .advanceEpoch []

theorem landing_registers_delivery_neglected :
    (∀ event ∈ played (accepting 2) start neglecting, Turns event → ∀ policyClass leaf,
      Lands event policyClass leaf → leaf ∉ event.after.revokedLeaves →
        Registers event policyClass leaf) ↔
    ∀ event ∈ played (accepting 2) start neglecting, Turns event →
      ∀ leaf ∈ event.before.staged.admissions.map Prod.snd, ¬ RevokedPast event leaf →
        Addressed event.before leaf :=
  landing_registers_delivery create_start (execution_played neglecting)

theorem guests_before : neglected.before.classes[guests]?.isSome := by decide +kernel

theorem guests_after : neglected.after.classes[guests]?.isSome := by decide +kernel

theorem landing_goes_unregistered :
    neglected ∈ played (accepting 2) start (neglecting ++ [.advanceEpoch]) ∧ Turns neglected ∧
      Lands neglected guests candidate ∧ candidate ∉ neglected.after.revokedLeaves ∧
      neglected.after.inboxLive candidate = none := by
  refine ⟨?_, turns_of_advanceEpoch rfl (by decide +kernel), ?_, by decide +kernel,
    by decide +kernel⟩
  · rw [played_neglected]
    exact List.mem_append_right _ (List.mem_singleton_self _)
  · exact ⟨_, _, (Option.some_get guests_before).symm, by decide +kernel,
      (Option.some_get guests_after).symm, by decide +kernel⟩

end Nymora.Protocol.Operator.AgoraState.Sample
