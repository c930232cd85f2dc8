import Nymora.Protocol.Operator.Run.Equivocation
import Nymora.Protocol.Operator.Run.Registration

namespace Nymora.Protocol.Operator.AgoraState

open Nymora.Core
open Nymora.Crypto
open Nymora.Accumulator
open Nymora.Circuits
open Nymora.Proofs
open Std (ExtTreeMap ExtTreeSet)

variable {depth : Nat} {system : ProofSystem depth}

-- The leaves a call's boundary would add to the revoked ones.
def revoking (event : Event system) : List Commitment :=
  match event.call with
  | .execute subject =>
      match event.before.proposals[subject]?.map Proposal.decision with
      | some (.Revocation leaf) => event.before.staged.revocations ++ [leaf]
      | _ => event.before.staged.revocations
  | _ => event.before.staged.revocations

-- Whether a leaf is revoked once the call's boundary is past.
def RevokedPast (event : Event system) (leaf : Commitment) : Prop :=
  leaf ∈ event.before.revokedLeaves ∨ leaf ∈ revoking event

-- Whatever stands or lands under the key of a revoked leaf is itself among the revoked.
def Untwinned (event : Event system) : Prop :=
  ∀ twin leaf, Landed event.before twin ∨ twin ∈ event.before.staged.admissions.map Prod.snd →
    RevokedPast event leaf → revocationKey twin = revocationKey leaf → RevokedPast event twin

-- An executed revocation of a leaf.
def Revokes (event : Event system) (leaf : Commitment) : Prop :=
  ∃ subject envelope, event.call = .execute subject ∧
    event.before.proposals[subject]?.map Proposal.decision = some (.Revocation leaf) ∧
    event.outcome = .ok (.executed (.Revocation envelope))

-- The delivery record and the revocation keys agree on every landed leaf.
def ReadCut (state : AgoraState depth) : Prop :=
  ∀ twin leaf, Landed state twin → leaf ∈ state.revokedLeaves →
    revocationKey twin = revocationKey leaf → twin ∈ state.revokedLeaves

variable [Primitives] {before after start state : AgoraState depth} {history : History system}

-- A boundary adds to the revoked leaves what its call was revoking.
theorem Transition.revokedLeaves_of_turns {call : Call system} {outcome : Outcome}
    (htransition : Transition system before call outcome after)
    (hturns : Turns (⟨before, call, outcome, after⟩ : Event system)) {leaf : Commitment} :
    leaf ∈ after.revokedLeaves ↔ RevokedPast ⟨before, call, outcome, after⟩ leaf := by
  obtain ⟨envelope, ⟨hcall, houtcome⟩ | houtcome⟩ := hturns
  · cases htransition with
    | advanceEpoch _ hboundary =>
        rw [hboundary.mem_revokedLeaves, or_comm]
        rfl
    | refused => cases houtcome
    | advanceLost => cases houtcome
    | _ => cases hcall
  · cases htransition with
    | @execute subject proposal _ _ hcarried heffect =>
        have hrevoking : ∀ revoked (outcome : Outcome), proposal.decision = .Revocation revoked →
            revoking (⟨before, .execute subject, outcome, after⟩ : Event system) =
              before.staged.revocations ++ [revoked] := by
          intro revoked outcome hdecision
          simp [revoking, hcarried.raised, hdecision]
        generalize proposal.decision = decision at heffect hrevoking
        cases heffect with
        | revocation hboundary =>
            rw [hboundary.mem_revokedLeaves, or_comm, RevokedPast, hrevoking _ _ rfl]
            rfl
        | _ => cases houtcome
    | _ => cases houtcome

theorem Transition.revokedLeaves_eq {call : Call system} {outcome : Outcome}
    (htransition : Transition system before call outcome after)
    (hunturned : ¬ Turns (⟨before, call, outcome, after⟩ : Event system)) :
    after.revokedLeaves = before.revokedLeaves := by
  cases htransition with
  | advanceEpoch => exact absurd ⟨_, Or.inl ⟨rfl, rfl⟩⟩ hunturned
  | @execute subject proposal _ _ _ heffect =>
      generalize proposal.decision = decision at heffect
      cases heffect with
      | revocation => exact absurd ⟨_, Or.inr rfl⟩ hunturned
      | _ => rfl
  | _ => rfl

-- A landed leaf stood before the step, or the boundary landed it.
theorem Transition.landed_before {call : Call system} {outcome : Outcome}
    (htransition : Transition system before call outcome after) {leaf : Commitment}
    (hlanded : Landed after leaf) : Landed before leaf ∨
      Turns (⟨before, call, outcome, after⟩ : Event system) ∧
        leaf ∈ before.staged.admissions.map Prod.snd := by
  obtain ⟨policyClass, later, hlater, hleaf⟩ := hlanded
  by_cases hturns : Turns (⟨before, call, outcome, after⟩ : Event system)
  · obtain ⟨_, ready, next, hready, hboundary⟩ := htransition.boundary_of_turns hturns
    cases hentry : ready.classes[policyClass]? with
    | none =>
        rw [hboundary.unconfigured policyClass hentry] at hlater
        cases hlater
    | some entry =>
        obtain ⟨landed, hlanded, hlands⟩ := hboundary.lands policyClass entry hentry
        obtain rfl : later = landed := Option.some_inj.1 (hlater.symm.trans hlanded)
        rw [hready.quiet.classes] at hentry
        rw [hready.admissions] at hlands
        rcases hlands.mem_positions.1 hleaf with hstood | hstaged
        · exact Or.inl ⟨policyClass, entry, hentry, hstood⟩
        · exact Or.inr ⟨hturns, List.mem_map.2 ⟨_, mem_stagedFor.1 hstaged, rfl⟩⟩
  · refine Or.inl ?_
    cases htransition with
    | advanceEpoch => exact absurd ⟨_, Or.inl ⟨rfl, rfl⟩⟩ hturns
    | @execute subject proposal _ _ _ heffect =>
        generalize proposal.decision = decision at heffect
        cases heffect with
        | revocation => exact absurd ⟨_, Or.inr rfl⟩ hturns
        | @policy changed entry _ _ hentry =>
            simp only [withPolicy, ExtTreeMap.getElem?_insert, Std.compare_eq_iff_eq] at hlater
            by_cases heq : changed = policyClass
            · subst heq
              rw [if_pos rfl, Option.some_inj] at hlater
              rw [← hlater] at hleaf
              exact ⟨changed, entry, hentry, hleaf⟩
            · rw [if_neg heq] at hlater
              exact ⟨policyClass, later, hlater, hleaf⟩
        | _ => exact ⟨policyClass, later, hlater, hleaf⟩
    | _ => exact ⟨policyClass, later, hlater, hleaf⟩

theorem Transition.readCut {call : Call system} {outcome : Outcome}
    (htransition : Transition system before call outcome after) (hcut : ReadCut before)
    (huntwinned : Turns (⟨before, call, outcome, after⟩ : Event system) →
      Untwinned (⟨before, call, outcome, after⟩ : Event system)) : ReadCut after := by
  intro twin leaf hlanded hrevoked hkey
  by_cases hturns : Turns (⟨before, call, outcome, after⟩ : Event system)
  · rw [htransition.revokedLeaves_of_turns hturns] at hrevoked ⊢
    refine huntwinned hturns twin leaf ?_ hrevoked hkey
    exact (htransition.landed_before hlanded).imp_right And.right
  · rw [htransition.revokedLeaves_eq hturns] at hrevoked ⊢
    have hstood := (htransition.landed_before hlanded).resolve_right fun hlands =>
      hturns hlands.1
    exact hcut twin leaf hstood hrevoked hkey

-- Revoked leaves stay revoked.
theorem Transition.revokedLeaves_mono {call : Call system} {outcome : Outcome}
    (htransition : Transition system before call outcome after) {leaf : Commitment}
    (hrevoked : leaf ∈ before.revokedLeaves) : leaf ∈ after.revokedLeaves := by
  by_cases hturns : Turns (⟨before, call, outcome, after⟩ : Event system)
  · rw [htransition.revokedLeaves_of_turns hturns]
    exact Or.inl hrevoked
  · rwa [htransition.revokedLeaves_eq hturns]

theorem Transition.mem_revokedLeaves {call : Call system} {outcome : Outcome}
    (htransition : Transition system before call outcome after) {leaf : Commitment}
    (hrevokes : Revokes (⟨before, call, outcome, after⟩ : Event system) leaf) :
    leaf ∈ after.revokedLeaves := by
  obtain ⟨subject, envelope, rfl, hdecision, rfl⟩ := hrevokes
  rw [htransition.revokedLeaves_of_turns ⟨envelope, Or.inr rfl⟩]
  refine Or.inr ?_
  simp only [revoking, hdecision]
  exact List.mem_append_right _ (List.mem_singleton_self _)

theorem Execution.revokedLeaves_mono (hexecution : Execution system start history state)
    (hsound : start.Sound) {leaf : Commitment} (hrevoked : leaf ∈ start.revokedLeaves) :
    leaf ∈ state.revokedLeaves := by
  refine hexecution.carries (motive := fun current => leaf ∈ current.revokedLeaves) hsound
    hrevoked ?_
  intro before after call outcome _ htransition hmem
  exact htransition.revokedLeaves_mono hmem

theorem Execution.readCut (hexecution : Execution system start history state)
    (hsound : start.Sound) (hcut : ReadCut start)
    (huntwinned : ∀ event ∈ history, Turns event → Untwinned event) : ReadCut state := by
  refine (execution_invariant (motive := fun done current =>
    (∀ event ∈ done, Turns event → Untwinned event) → ReadCut current) hexecution hsound
    (fun _ => hcut) ?_).2 huntwinned
  intro done before after call outcome _ hdone htransition hsteps
  have hbefore := hdone fun event hevent => hsteps event (List.mem_append_left _ hevent)
  exact htransition.readCut hbefore
    (hsteps _ (List.mem_append_right _ (List.mem_singleton_self _)))

-- In every run over any proof system whose boundaries land and revoke no unlisted twin, an
-- executed revocation ends delivery to every commitment of the same credential.
theorem revocation_cuts_delivery {founding : Founding} {tagSecret statementEntropy : Bytes 32}
    {logSeed : Option (Bytes 32)} {created : AgoraState depth}
    (hcreate : create founding tagSecret statementEntropy logSeed = .ok created)
    (hexecution : Execution system created history state)
    (huntwinned : ∀ event ∈ history, Turns event → Untwinned event)
    {earlier later : History system} {cutting handing : Event system} {leaf : Commitment}
    (hhistory : history = earlier ++ cutting :: later) (hrevokes : Revokes cutting leaf)
    (hhanding : handing ∈ cutting :: later) {envelope : Envelope}
    (henvelope : HandsOut handing envelope) :
    (∀ policyClass entry position twin, handing.after.classes[policyClass]? = some entry →
      entry.positions[twin]? = some position → revocationKey twin = revocationKey leaf →
        handing.after.ciphertextFor policyClass entry position twin = none) ∧
    ∀ ciphertext ∈ envelope.ciphertexts, ∃ policyClass entry position other,
      handing.after.classes[policyClass]? = some entry ∧
        entry.positions[other]? = some position ∧
        handing.after.ciphertextFor policyClass entry position other = some ciphertext ∧
        revocationKey other ≠ revocationKey leaf := by
  have hfresh := fresh_of_create hcreate
  have hcreated : ReadCut created := by
    intro twin leaf _ hrevoked
    rw [hfresh.revokedLeaves] at hrevoked
    exact absurd hrevoked ExtTreeSet.not_mem_empty
  rw [hhistory] at hexecution huntwinned
  obtain ⟨_, _, hcuts, hafter, hlater⟩ := hexecution.at_event hfresh.sound
  have hrevoked := hcuts.mem_revokedLeaves hrevokes
  -- The state the envelope was handed out from, with the revocation behind it.
  obtain ⟨hcut, hgone, hhanded⟩ : ReadCut handing.after ∧ leaf ∈ handing.after.revokedLeaves ∧
      envelope = handing.after.envelopeNow := by
    obtain ⟨before, after, hsplit⟩ := List.append_of_mem (List.mem_append_right earlier hhanding)
    rw [hsplit] at hexecution huntwinned
    obtain ⟨hbefore, _, htransition, _, _⟩ := hexecution.at_event hfresh.sound
    refine ⟨?_, ?_, (htransition.handsOut henvelope).1⟩
    · refine (hbefore.join hexecution.single).readCut hfresh.sound hcreated ?_
      intro event hevent
      refine huntwinned event ?_
      rcases List.mem_append.1 hevent with hearlier | hlast
      · exact List.mem_append_left _ hearlier
      · exact List.mem_append_right _ (List.mem_cons.2 (Or.inl (List.mem_singleton.1 hlast)))
    · rcases List.mem_cons.1 hhanding with rfl | hmem
      · exact hrevoked
      · obtain ⟨first, rest, rfl⟩ := List.append_of_mem hmem
        obtain ⟨hfirst, _, _, _, _⟩ := hlater.at_event hafter
        exact (hfirst.join hlater.single).revokedLeaves_mono hafter hrevoked
  have hnone : ∀ policyClass entry position twin, handing.after.classes[policyClass]? = some entry →
      entry.positions[twin]? = some position → revocationKey twin = revocationKey leaf →
        handing.after.ciphertextFor policyClass entry position twin = none := by
    intro policyClass entry position twin hentry hposition hkey
    have hstands : twin ∈ entry.positions := by
      rw [ExtTreeMap.mem_iff_isSome_getElem?, hposition]
      rfl
    have htwin := hcut twin leaf ⟨policyClass, entry, hentry, hstands⟩ hgone hkey
    have hdead : handing.after.inboxLive twin = none := by simp [inboxLive, htwin]
    rw [ciphertextFor, hdead]
    rfl
  refine ⟨hnone, ?_⟩
  intro ciphertext hciphertext
  rw [hhanded] at hciphertext
  obtain ⟨policyClass, entry, position, other, hentry, hposition, hproduced⟩ :=
    mem_ciphertextsNow.1 hciphertext
  refine ⟨policyClass, entry, position, other, hentry, hposition, hproduced, ?_⟩
  intro hkey
  rw [hnone policyClass entry position other hentry hposition hkey] at hproduced
  cases hproduced

end Nymora.Protocol.Operator.AgoraState

namespace Nymora.Protocol.Operator.AgoraState.Sample

open Nymora.Core
open Nymora.Crypto
open Std (ExtTreeSet)
open scoped Nymora.Crypto.Reference

-- The founder's bytes plus the field order: other bytes, the same credential.
def twin : Commitment := .fromBytes (Bytes.ofNatLe 32 (founder.asBytes.toNatLe + fieldOrder))

def revocationOf (leaf : Commitment) : SubjectId :=
  subjectId founding.agora founding.genesis members (.Revocation leaf) entropy

-- The founder raises the revocation of a leaf and approves it alone.
def accusing (leaf : Commitment) : List (Call (accepting 2)) :=
  [.propose (.Revocation leaf) members entropy, .approve (revocationOf leaf) () nullifier]

def cutting (leaf : Commitment) : Event (accepting 2) :=
  playing (accepting 2) start (accusing leaf) (.execute (revocationOf leaf))

theorem played_cutting (leaf : Commitment) :
    played (accepting 2) start (accusing leaf ++ [.execute (revocationOf leaf)]) =
      played (accepting 2) start (accusing leaf) ++ [cutting leaf] :=
  played_split (accusing leaf) (.execute (revocationOf leaf)) []

theorem exists_revocation {outcome : Outcome} (hhands : handsRevocation outcome = true) :
    ∃ envelope, outcome = .ok (.executed (.Revocation envelope)) := by
  unfold handsRevocation at hhands
  split at hhands
  · exact ⟨_, rfl⟩
  · cases hhands

theorem cutting_revokes (leaf : Commitment)
    (hraised : (cutting leaf).before.proposals[revocationOf leaf]?.map Proposal.decision =
      some (.Revocation leaf))
    (hexecutes : handsRevocation (cutting leaf).outcome = true) :
    ∃ envelope, Revokes (cutting leaf) leaf ∧ HandsOut (cutting leaf) envelope := by
  obtain ⟨envelope, houtcome⟩ := exists_revocation hexecutes
  exact ⟨envelope, ⟨_, envelope, rfl, hraised, houtcome⟩, _, houtcome, rfl⟩

-- Nothing lands but the founder, and nothing of its own bytes is left out of its revocation.
theorem untwinned_accusing {event : Event (accepting 2)}
    (hevent : event ∈ played (accepting 2) start (accusing founder) ++ [cutting founder])
    (hturns : Turns event) : Untwinned event := by
  have hexecution := @execution_played _ _ (accepting 2) start
    (accusing founder ++ [.execute (revocationOf founder)])
  rw [played_cutting] at hexecution
  have hcall := hexecution.call_of_turns (fresh_of_create create_start).sound hevent hturns
  rcases List.mem_append.1 hevent with hearlier | hlast
  · have hmem := call_of_mem_played hearlier
    rcases hcall with hadvance | ⟨subject, hexecute⟩
    · rw [hadvance] at hmem
      simp [accusing] at hmem
    · rw [hexecute] at hmem
      simp [accusing] at hmem
  · rw [List.mem_singleton.1 hlast]
    intro other leaf hother hrevoked _
    have hkeys : ((cutting founder).before.classes.toList.flatMap fun entry =>
        entry.2.positions.keys) = [founder] := by decide +kernel
    have hstaged : (cutting founder).before.staged.admissions.map Prod.snd = [] := by decide +kernel
    have hrevoking : revoking (cutting founder) = [founder] := by decide +kernel
    have hfounder : other = founder := by
      rcases hother with hlanded | hadmitted
      · rw [landed_iff_mem_keys, hkeys] at hlanded
        exact List.mem_singleton.1 hlanded
      · rw [hstaged] at hadmitted
        cases hadmitted
    refine Or.inr ?_
    rw [hrevoking, hfounder]
    exact List.mem_singleton_self _

theorem revocation_cuts_delivery_founder : ∃ envelope, HandsOut (cutting founder) envelope ∧
    ∀ ciphertext ∈ envelope.ciphertexts, ∃ policyClass entry position other,
      (cutting founder).after.classes[policyClass]? = some entry ∧
        entry.positions[other]? = some position ∧
        (cutting founder).after.ciphertextFor policyClass entry position other = some ciphertext ∧
        revocationKey other ≠ revocationKey founder := by
  obtain ⟨envelope, hrevokes, hhands⟩ :=
    cutting_revokes founder (by decide +kernel) (by decide +kernel)
  have hexecution := @execution_played _ _ (accepting 2) start
    (accusing founder ++ [.execute (revocationOf founder)])
  rw [played_cutting] at hexecution
  exact ⟨envelope, hhands, (revocation_cuts_delivery create_start hexecution
    (fun _ => untwinned_accusing) rfl hrevokes List.mem_cons_self hhands).2⟩

theorem cut_members : (cutting twin).after.classes[members]?.isSome := by decide +kernel

def cutMembers : ClassState 2 := (cutting twin).after.classes[members]?.get cut_members

theorem cut_delivers :
    ((cutting twin).after.ciphertextFor members cutMembers 0 founder).isSome := by decide +kernel

-- Revoked under the other bytes, the founder's credential is still delivered to.
theorem revoked_twin_is_delivered_to : revocationKey twin = revocationKey founder ∧
    ∃ envelope, Revokes (cutting twin) twin ∧ HandsOut (cutting twin) envelope ∧
      ∃ entry position ciphertext, (cutting twin).after.classes[members]? = some entry ∧
        entry.positions[founder]? = some position ∧
        (cutting twin).after.ciphertextFor members entry position founder = some ciphertext ∧
        ciphertext ∈ envelope.ciphertexts := by
  have hreduced : Field.fromWitnessBytes twin.asBytes = Field.fromWitnessBytes founder.asBytes := by
    apply Fin.ext
    rw [Field.fromWitnessBytes_val, Field.fromWitnessBytes_val]
    decide +kernel
  obtain ⟨envelope, hrevokes, hhands⟩ :=
    cutting_revokes twin (by decide +kernel) (by decide +kernel)
  have hexecution := @execution_played _ _ (accepting 2) start
    (accusing twin ++ [.execute (revocationOf twin)])
  rw [played_cutting] at hexecution
  have henvelope := hexecution.handed (fresh_of_create create_start).sound hhands
  have hmembers : (cutting twin).after.classes[members]? = some cutMembers :=
    (Option.some_get cut_members).symm
  have hfounder : cutMembers.positions[founder]? = some 0 := by decide +kernel
  obtain ⟨ciphertext, hciphertext⟩ := Option.isSome_iff_exists.1 cut_delivers
  refine ⟨?_, envelope, hrevokes, hhands, cutMembers, 0, ciphertext, hmembers, hfounder,
    hciphertext, ?_⟩
  · unfold revocationKey
    rw [hreduced]
  · rw [henvelope, envelopeNow_ciphertexts]
    exact mem_ciphertextsNow.2 ⟨members, cutMembers, 0, founder, hmembers, hfounder, hciphertext⟩

end Nymora.Protocol.Operator.AgoraState.Sample
