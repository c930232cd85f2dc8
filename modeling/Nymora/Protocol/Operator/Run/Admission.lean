import Nymora.Protocol.Operator.Run.Script

namespace Nymora.Protocol.Operator.AgoraState

open Nymora.Core
open Nymora.Crypto
open Nymora.Circuits
open Nymora.Proofs
open Std (ExtTreeMap ExtTreeSet)

variable {depth : Nat} {system : ProofSystem depth}

abbrev Event (system : ProofSystem depth) : Type :=
  Runs.Event (AgoraState depth) (Call system) Outcome

-- An accepted opening of a session.
def Opens (event : Event system) (session : SessionId) (candidate : Commitment)
    (target : PolicyClass) : Prop :=
  event.outcome = .ok (.session session) ∧
    ∃ idEntropy, event.call = .startVouch candidate target idEntropy

-- A recorded attestation, with the proof that was accepted and the roots it was checked against.
def Attests (event : Event system) (agora : AgoraId) (epoch : Epoch) (session : SessionId)
    (voucherClass : PolicyClass) (nullifier : Nullifier) : Prop :=
  event.before.epoch = epoch ∧ event.outcome = .ok .recorded ∧ ∃ proof roots,
    event.call = .vouchAttest session proof nullifier ∧
      event.before.rootsIn epoch voucherClass = .ok roots ∧
      verifyVouch system proof agora epoch roots session.asBytes.toList nullifier

-- A finalization that admitted the leaf: its session was opened for that leaf and that class in
-- the same epoch, and held at least the threshold's number of distinct attested nullifiers; and it
-- staged that leaf for that class.
structure Finalizes (opening : Event system) (between : History system) (closing : Event system)
    (agora : AgoraId) (epoch : Epoch) (policyClass : PolicyClass) (leaf : Commitment)
    (session : SessionId) (entry : ClassState depth) (nullifiers : ExtTreeSet Nullifier) :
    Prop where
  opens : Opens opening session leaf policyClass
  sameEpoch : ∀ event ∈ opening :: between, event.before.epoch = epoch
  closed : closing.before.epoch = epoch
  call : closing.call = .vouchFinalize session
  outcome : ∃ admission, closing.outcome = .ok (.admission admission)
  held : closing.before.sessions[session]? = some ⟨leaf, policyClass, nullifiers⟩
  stages : closing.after.staged.admissions =
    closing.before.staged.admissions ++ [(policyClass, leaf)]
  configured : closing.before.classes[policyClass]? = some entry
  threshold : entry.policy.admissionThreshold.toNat ≤ nullifiers.size
  attested : ∀ nullifier ∈ nullifiers, ∃ event ∈ between,
    Attests event agora epoch session entry.policy.voucherClass nullifier

def AdmittedByVouch (history : History system) (agora : AgoraId) (policyClass : PolicyClass)
    (leaf : Commitment) (epoch : Epoch) : Prop :=
  ∃ earlier opening between closing later session entry nullifiers,
    history = earlier ++ opening :: (between ++ closing :: later) ∧
      Finalizes opening between closing agora epoch policyClass leaf session entry nullifiers

-- A migration that was accepted with the leaf as its successor.
def AdmittedByMigration (history : History system) (agora : AgoraId) (policyClass : PolicyClass)
    (leaf : Commitment) (epoch : Epoch) : Prop :=
  ∃ event ∈ history, ∃ proof spend inbox admission roots, event.before.epoch = epoch ∧
    event.call = .migrate policyClass proof spend leaf inbox ∧
    event.outcome = .ok (.admission admission) ∧
    event.before.rootsIn epoch policyClass = .ok roots ∧
    verifyMigration system proof agora roots.policyClass roots.revocation spend leaf ∧
    event.after.staged.admissions = event.before.staged.admissions ++ [(policyClass, leaf)]

def Admitted (history : History system) (agora : AgoraId) (policyClass : PolicyClass)
    (leaf : Commitment) (epoch : Epoch) : Prop :=
  AdmittedByVouch history agora policyClass leaf epoch ∨
    AdmittedByMigration history agora policyClass leaf epoch

theorem Admitted.concat {history : History system} {agora : AgoraId} {policyClass : PolicyClass}
    {leaf : Commitment} {epoch : Epoch} (hadmitted : Admitted history agora policyClass leaf epoch)
    (event : Event system) : Admitted (history ++ [event]) agora policyClass leaf epoch := by
  rcases hadmitted with ⟨earlier, opening, between, closing, later, session, entry, nullifiers,
    rfl, hfinalizes⟩ | ⟨migration, hmem, hrest⟩
  · refine Or.inl ⟨earlier, opening, between, closing, later ++ [event], session, entry, nullifiers,
      ?_, hfinalizes⟩
    simp
  · exact Or.inr ⟨migration, List.mem_append_left _ hmem, hrest⟩

-- What the history knows of an open session: it was opened in this epoch, and every nullifier
-- it holds came with an accepted proof since.
def Remembered (history : History system) (state : AgoraState depth) (session : SessionId)
    (opened : VouchSession) : Prop :=
  ∃ earlier opening later, history = earlier ++ opening :: later ∧
    Opens opening session opened.candidate opened.target ∧
    (∀ event ∈ opening :: later, event.before.epoch = state.epoch) ∧
    ∀ entry, state.classes[opened.target]? = some entry → ∀ nullifier ∈ opened.nullifiers,
      ∃ event ∈ later,
        Attests event state.agora state.epoch session entry.policy.voucherClass nullifier

-- The invariant of admission: open sessions are remembered, staged leaves were admitted in this
-- epoch, and landed leaves are the founder's or were admitted in an earlier one. At the last
-- epoch a refused call can leave a leaf staged, which never lands.
structure Vetted (founding : Founding) (history : History system) (state : AgoraState depth) :
    Prop where
  agora : state.agora = founding.agora
  sessions : ∀ (session : SessionId) (opened : VouchSession),
    state.sessions[session]? = some opened → Remembered history state session opened
  staged : ∀ admission ∈ state.staged.admissions,
    Admitted history state.agora admission.1 admission.2 state.epoch ∨ state.epoch.next = none
  landed : ∀ (policyClass : PolicyClass) (entry : ClassState depth) (index : Nat)
    (leaf : Commitment), state.classes[policyClass]? = some entry → entry.Occupies index leaf →
      index < founding.founderClasses.count policyClass ∧ leaf = founding.founder ∨
        ∃ epoch, epoch.get < state.epoch.get ∧
          Admitted history state.agora policyClass leaf epoch

theorem Fresh.vetted {founding : Founding} {created : AgoraState depth}
    (hfresh : Fresh founding created) : Vetted founding ([] : History system) created where
  agora := hfresh.agora
  sessions := by simp [hfresh.sessions]
  staged := by simp [hfresh.staged]
  landed := by
    intro policyClass entry index leaf hentry hoccupies
    have hfounded := hfresh.founded policyClass entry hentry
    have hindex := hoccupies.1
    rw [hfounded.occupied] at hindex
    exact Or.inl ⟨hindex, Option.some_inj.1 (hoccupies.2.symm.trans (hfounded.leaves index hindex))⟩

variable [Primitives] {before after : AgoraState depth} {history : History system}

-- A session the step left alone is remembered past the step.
theorem Remembered.concat {session : SessionId} {opened : VouchSession} {event : Event system}
    (hremembered : Remembered history before session opened) (hcourse : Course before after)
    (hagora : after.agora = before.agora) (hepoch : after.epoch = before.epoch)
    (hevent : event.before = before) :
    Remembered (history ++ [event]) after session opened := by
  obtain ⟨earlier, opening, later, rfl, hopens, hepochs, hattested⟩ := hremembered
  refine ⟨earlier, opening, later ++ [event], by simp, hopens, ?_, ?_⟩
  · intro other hother
    rw [hepoch]
    rw [← List.cons_append, List.mem_append, List.mem_singleton] at hother
    rcases hother with hbefore | rfl
    · exact hepochs other hbefore
    · rw [hevent]
  · intro later hlater nullifier hnullifier
    obtain ⟨entry, hentry, hvoucher⟩ := hcourse.voucherClass hlater
    obtain ⟨attestation, hmem, hattests⟩ := hattested entry hentry nullifier hnullifier
    rw [hagora, hepoch, hvoucher]
    exact ⟨attestation, List.mem_append_left _ hmem, hattests⟩

omit [Primitives] in
-- A counted nullifier is remembered by the event that recorded it.
theorem Remembered.count {session : SessionId} {opened : VouchSession} {proof : system.Proof}
    {nullifier : Nullifier} {entry : ClassState depth} {roots : EpochRoots}
    (hremembered : Remembered history before session opened)
    (hentry : before.classes[opened.target]? = some entry)
    (hroots : before.rootsIn before.epoch entry.policy.voucherClass = .ok roots)
    (hproof : verifyVouch system proof before.agora before.epoch roots session.asBytes.toList
      nullifier)
    (hafter : after = before.withSession session
      { opened with nullifiers := opened.nullifiers.insert nullifier }) :
    Remembered (history ++ [⟨before, .vouchAttest session proof nullifier, .ok .recorded, after⟩])
      after session { opened with nullifiers := opened.nullifiers.insert nullifier } := by
  obtain ⟨earlier, opening, later, rfl, hopens, hepochs, hattested⟩ := hremembered
  subst hafter
  refine ⟨earlier, opening, later ++ [_], List.append_assoc _ _ _, hopens, ?_, ?_⟩
  · intro event hevent
    rw [← List.cons_append, List.mem_append, List.mem_singleton] at hevent
    rcases hevent with hbefore | rfl
    · exact hepochs event hbefore
    · rfl
  · intro other hother counted hcounted
    obtain rfl : entry = other := Option.some_inj.1 (hentry.symm.trans hother)
    rw [ExtTreeSet.mem_insert, Std.compare_eq_iff_eq] at hcounted
    rcases hcounted with rfl | hearlier
    · exact ⟨_, List.mem_append_right _ (List.mem_singleton_self _), rfl, rfl, proof, roots, rfl,
        hroots, hproof⟩
    · obtain ⟨event, hmem, hattests⟩ := hattested entry hentry counted hearlier
      exact ⟨event, List.mem_append_left _ hmem, hattests⟩

-- What the step did not touch is remembered; what it opened or counted is in the event itself.
theorem Vetted.sessions_step {founding : Founding} {call : Call system} {outcome : Outcome}
    (hvetted : Vetted founding history before)
    (htransition : Transition system before call outcome after) (session : SessionId)
    (opened : VouchSession) (hopened : after.sessions[session]? = some opened) :
    Remembered (history ++ [⟨before, call, outcome, after⟩]) after session opened := by
  have hcourse := htransition.course
  have hkept : before.sessions[session]? = some opened → after.agora = before.agora →
      after.epoch = before.epoch →
      Remembered (history ++ [⟨before, call, outcome, after⟩]) after session opened := by
    intro hearlier hagora hepoch
    exact (hvetted.sessions session opened hearlier).concat hcourse hagora hepoch rfl
  have herased : ∀ {id : SessionId}, (before.sessions.erase id)[session]? = some opened →
      before.sessions[session]? = some opened := by
    intro id herase
    rw [ExtTreeMap.getElem?_erase] at herase
    split at herase
    · cases herase
    · exact herase
  cases htransition with
  | @startVouch candidate target idEntropy entry hlive hpending hentry hunlanded hroom =>
      simp only [withSession, ExtTreeMap.getElem?_insert, Std.compare_eq_iff_eq] at hopened
      by_cases heq : Digest.fromBytes idEntropy = session
      · rw [if_pos heq, Option.some_inj] at hopened
        subst heq hopened
        refine ⟨history, _, [], rfl, ⟨rfl, idEntropy, rfl⟩, ?_, ?_⟩
        · intro event hevent
          rw [List.mem_singleton.1 hevent]
          rfl
        · intro _ _ nullifier hnullifier
          exact absurd hnullifier ExtTreeSet.not_mem_empty
      · rw [if_neg heq] at hopened
        exact hkept hopened rfl rfl
  | @vouchAttest id proof nullifier current entry roots hlive hcurrent hentry hroots hproof hfresh =>
      simp only [withSession, ExtTreeMap.getElem?_insert, Std.compare_eq_iff_eq] at hopened
      by_cases heq : id = session
      · rw [if_pos heq, Option.some_inj] at hopened
        subst heq hopened
        exact (hvetted.sessions id current hcurrent).count hentry hroots hproof rfl
      · rw [if_neg heq] at hopened
        exact hkept hopened rfl rfl
  | vouchFinalize _ _ _ _ _ _ => exact hkept (herased hopened) rfl rfl
  | finalizeClosed => exact hkept (herased hopened) rfl rfl
  | finalizeConsumed => exact hkept (herased hopened) rfl rfl
  | finalizeLost _ _ => exact hkept (herased hopened) rfl rfl
  | execute hcarried heffect =>
      rcases heffect.clears_or_keeps with hcleared | huntouched
      · simp [hcleared.sessions] at hopened
      · rw [huntouched.sessions] at hopened
        exact hkept hopened huntouched.agora huntouched.epoch
  | advanceEpoch _ hboundary => simp [hboundary.sessions] at hopened
  | _ => exact hkept hopened rfl rfl

omit [Primitives] in
-- A finalization stages what its remembered session earned.
theorem Vetted.admitted_of_finalize {founding : Founding} {session : SessionId}
    {opened : VouchSession} {entry : ClassState depth} {admission : Admission}
    (hvetted : Vetted founding history before)
    (hopened : before.sessions[session]? = some opened)
    (hentry : before.classes[opened.target]? = some entry)
    (hmet : entry.policy.admissionThreshold.toNat ≤ opened.nullifiers.size)
    (hstages : after.staged.admissions =
      before.staged.admissions ++ [(opened.target, opened.candidate)]) :
    Admitted (history ++ [⟨before, .vouchFinalize session, .ok (.admission admission), after⟩])
      before.agora opened.target opened.candidate before.epoch := by
  obtain ⟨earlier, opening, later, rfl, hopens, hepochs, hattested⟩ :=
    hvetted.sessions session opened hopened
  refine Or.inl ⟨earlier, opening, later, _, [], session, entry, opened.nullifiers,
    List.append_assoc _ _ _, ?_⟩
  exact {
    opens := hopens
    sameEpoch := hepochs
    closed := rfl
    call := rfl
    outcome := ⟨admission, rfl⟩
    held := hopened
    stages := hstages
    configured := hentry
    threshold := hmet
    attested := hattested entry hentry }

theorem Vetted.staged_step {founding : Founding} {call : Call system} {outcome : Outcome}
    (hvetted : Vetted founding history before)
    (htransition : Transition system before call outcome after)
    (admission : PolicyClass × Commitment) (hadmission : admission ∈ after.staged.admissions) :
    Admitted (history ++ [⟨before, call, outcome, after⟩]) after.agora admission.1 admission.2
      after.epoch ∨ after.epoch.next = none := by
  have hkept : admission ∈ before.staged.admissions → after.agora = before.agora →
      after.epoch = before.epoch →
      Admitted (history ++ [⟨before, call, outcome, after⟩]) after.agora admission.1 admission.2
        after.epoch ∨ after.epoch.next = none := by
    intro hearlier hagora hepoch
    rw [hagora, hepoch]
    exact (hvetted.staged admission hearlier).imp_left fun hadmitted => hadmitted.concat _
  cases htransition with
  | @vouchFinalize session opened entry promise hlive hopened hmet hstageable hnext hposition =>
      rcases List.mem_append.1 hadmission with hearlier | hnew
      · exact hkept hearlier rfl rfl
      · rw [List.mem_singleton.1 hnew]
        exact Or.inl (hvetted.admitted_of_finalize hopened hstageable.configured hmet rfl)
  | finalizeLost hnext _ =>
      rcases List.mem_append.1 hadmission with hearlier | _
      · exact hkept hearlier rfl rfl
      · exact Or.inr hnext
  | @migrate policyClass proof spend successor inbox promise entry roots hlive hmigratable =>
      rcases List.mem_append.1 hadmission with hearlier | hnew
      · exact hkept hearlier rfl rfl
      · rw [List.mem_singleton.1 hnew]
        exact Or.inl (Or.inr ⟨_, List.mem_append_right _ (List.mem_singleton_self _), proof, spend,
          inbox, promise, roots, rfl, rfl, rfl, hmigratable.rooted, hmigratable.accepted, rfl⟩)
  | migrateLost hnext _ =>
      rcases List.mem_append.1 hadmission with hearlier | _
      · exact hkept hearlier rfl rfl
      · exact Or.inr hnext
  | execute _ heffect =>
      rcases heffect.clears_or_keeps with hcleared | huntouched
      · simp [hcleared.staged] at hadmission
      · rw [huntouched.staged] at hadmission
        exact hkept hadmission huntouched.agora huntouched.epoch
  | executeLost _ => simp [unstage] at hadmission
  | advanceEpoch _ hboundary => simp [hboundary.staged] at hadmission
  | advanceLost _ => simp [unstage] at hadmission
  | _ => exact hkept hadmission rfl rfl

-- A leaf lands at a boundary that leaves the epoch it was admitted in.
theorem Vetted.landed_step {founding : Founding} (hvetted : Vetted founding history before)
    (hcourse : Course before after) (event : Event system) (policyClass : PolicyClass)
    (later : ClassState depth) (index : Nat) (leaf : Commitment)
    (hlater : after.classes[policyClass]? = some later) (hoccupies : later.Occupies index leaf) :
    index < founding.founderClasses.count policyClass ∧ leaf = founding.founder ∨
      ∃ epoch, epoch.get < after.epoch.get ∧
        Admitted (history ++ [event]) after.agora policyClass leaf epoch := by
  rw [hcourse.agora]
  have hkept : ∀ entry, before.classes[policyClass]? = some entry → entry.Occupies index leaf →
      index < founding.founderClasses.count policyClass ∧ leaf = founding.founder ∨
        ∃ epoch, epoch.get < after.epoch.get ∧
          Admitted (history ++ [event]) before.agora policyClass leaf epoch := by
    intro entry hentry hearlier
    refine (hvetted.landed policyClass entry index leaf hentry hearlier).imp_right ?_
    rintro ⟨epoch, hlt, hadmitted⟩
    exact ⟨epoch, Nat.lt_of_lt_of_le hlt hcourse.epoch_le, hadmitted.concat event⟩
  cases hcourse with
  | quiet hquiet => exact hkept later (by rw [← hquiet.classes]; exact hlater) hoccupies
  | @policy ready changed entry _ _ hready hentry =>
      simp only [withPolicy, ExtTreeMap.getElem?_insert, Std.compare_eq_iff_eq] at hlater
      rw [hready.quiet.classes] at hentry hlater
      by_cases heq : changed = policyClass
      · subst heq
        rw [if_pos rfl, Option.some_inj] at hlater
        subst hlater
        exact hkept entry hentry hoccupies
      · rw [if_neg heq] at hlater
        exact hkept later hlater hoccupies
  | dissolution hready =>
      exact hkept later (by rw [← hready.quiet.classes]; exact hlater) hoccupies
  | inboxHorizon hready =>
      exact hkept later (by rw [← hready.quiet.classes]; exact hlater) hoccupies
  | @boundary ready _ next hlive hready hboundary =>
      rw [← hready.quiet.classes] at hkept
      cases hentry : ready.classes[policyClass]? with
      | none =>
          rw [hboundary.unconfigured policyClass hentry] at hlater
          cases hlater
      | some entry =>
          obtain ⟨landed, hlanded, hlands⟩ := hboundary.lands policyClass entry hentry
          obtain rfl : later = landed := Option.some_inj.1 (hlater.symm.trans hlanded)
          rcases hlands.occupies hoccupies with hearlier | hstaged
          · exact hkept entry hentry hearlier
          · rw [mem_stagedFor, hready.admissions] at hstaged
            have hnext := hboundary.epoch_get
            rw [hready.quiet.epoch] at hnext
            rcases hvetted.staged _ hstaged with hadmitted | hlast
            · exact Or.inr ⟨before.epoch, by omega, hadmitted.concat event⟩
            · have hfollowing := hboundary.following
              rw [hready.quiet.epoch, hlast] at hfollowing
              cases hfollowing

-- Admission safety: every leaf that stands in a class's slot is one of the founder's founding
-- landings, or was admitted in an earlier epoch by an attested session or a proven migration.
theorem occupant_was_admitted {founding : Founding} {tagSecret statementEntropy : Bytes 32}
    {logSeed : Option (Bytes 32)} {created state : AgoraState depth}
    (hcreate : create founding tagSecret statementEntropy logSeed = .ok created)
    (hexecution : Execution system created history state) {policyClass : PolicyClass}
    {entry : ClassState depth} {index : Nat} {leaf : Commitment}
    (hentry : state.classes[policyClass]? = some entry) (hoccupies : entry.Occupies index leaf) :
    index < founding.founderClasses.count policyClass ∧ leaf = founding.founder ∨
      ∃ epoch, epoch.get < state.epoch.get ∧
        Admitted history founding.agora policyClass leaf epoch := by
  have hfresh := fresh_of_create hcreate
  obtain ⟨_, hvetted⟩ := execution_invariant hexecution hfresh.sound
    (hfresh.vetted : Vetted founding ([] : History system) created) (by
      intro history before after call outcome hsound hvetted htransition
      exact {
        agora := htransition.course.agora.trans hvetted.agora
        sessions := hvetted.sessions_step htransition
        staged := hvetted.staged_step htransition
        landed := hvetted.landed_step htransition.course _ })
  have hlanded := hvetted.landed policyClass entry index leaf hentry hoccupies
  rwa [hvetted.agora] at hlanded

end Nymora.Protocol.Operator.AgoraState

namespace Nymora.Protocol.Operator.AgoraState.Sample

open Nymora.Core
open Nymora.Crypto
open scoped Nymora.Crypto.Reference

-- The candidate is vouched into the members.
def vouching : List (Call (accepting 2)) :=
  [.credentialsInit candidate otherAddress, .startVouch candidate members entropy,
    .vouchAttest session () nullifier, .vouchFinalize session, .advanceEpoch]

def vouched : AgoraState 2 := reached (accepting 2) start vouching

theorem vouched_members : vouched.classes[members]?.isSome := by decide +kernel

theorem occupant_was_admitted_vouched :
    1 < founding.founderClasses.count members ∧ candidate = founding.founder ∨
      ∃ epoch, epoch.get < vouched.epoch.get ∧
        Admitted (played (accepting 2) start vouching) founding.agora members candidate epoch := by
  have hoccupies : (vouched.classes[members]?.get vouched_members).Occupies 1 candidate := by
    unfold ClassState.Occupies
    decide +kernel
  exact occupant_was_admitted create_start (execution_played vouching)
    (Option.some_get vouched_members).symm hoccupies

end Nymora.Protocol.Operator.AgoraState.Sample
