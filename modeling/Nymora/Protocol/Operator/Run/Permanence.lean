import Nymora.Circuits.Stub.Theorems
import Nymora.Protocol.Operator.Run.Between

namespace Nymora.Protocol.Operator.AgoraState

open Nymora.Core
open Nymora.Crypto
open Nymora.Accumulator
open Nymora.Circuits
open Nymora.Proofs
open Std (ExtTreeMap ExtTreeSet)

variable {depth : Nat} {system : ProofSystem depth}

-- What the operator hashes to publish the roots of both sets.
def setQueries (state : AgoraState depth) : List (List F) :=
  state.revocations.rootQueries ++ state.spends.rootQueries

-- The states a stretch of a run goes through.
def visited (start : AgoraState depth) (done : History system) : List (AgoraState depth) :=
  start :: done.map Runs.Event.after

variable [Primitives] {before after start state : AgoraState depth} {history : History system}

-- Both sets only grow.
theorem Course.cutOff (hcourse : Course before after) {opening : Opening} {leaf : Commitment}
    {agora : AgoraId} (hcut : CutOff before.revocations before.spends opening leaf agora) :
    CutOff after.revocations after.spends opening leaf agora := by
  have hready : ∀ {ready : AgoraState depth}, Ready before ready →
      CutOff ready.revocations ready.spends opening leaf agora := by
    intro ready hready
    rw [hready.quiet.revocations, hready.quiet.spends]
    exact hcut
  cases hcourse with
  | quiet hquiet =>
      rw [hquiet.revocations, hquiet.spends]
      exact hcut
  | policy hwithin _ =>
      have hkept := hready hwithin
      exact hkept
  | dissolution hwithin =>
      have hkept := hready hwithin
      exact hkept
  | inboxHorizon hwithin =>
      have hkept := hready hwithin
      exact hkept
  | boundary _ hwithin hboundary =>
      refine (hready hwithin).imp ?_ ?_
      · exact fun hrevoked => hboundary.mem_revocations.2 (Or.inr hrevoked)
      · exact fun hspent => hboundary.mem_spends.2 (Or.inr hspent)

-- A leaf is out of the current sets, and every snapshot since is of sets it is out of.
structure Barred (opening : Opening) (leaf : Commitment) (agora : AgoraId) (since : Epoch)
    (states : List (AgoraState depth)) (state : AgoraState depth) : Prop where
  sameAgora : state.agora = agora
  stands : state ∈ states
  reached : since.get ≤ state.epoch.get
  cut : CutOff state.revocations state.spends opening leaf agora
  snapshots : ∀ number snapshot, since.get ≤ number → state.history[number]? = some snapshot →
    ∃ stood ∈ states, snapshot.revocation = stood.revocations.root ∧
      snapshot.spend = stood.spends.root ∧
      CutOff stood.revocations stood.spends opening leaf agora

variable {opening : Opening} {leaf : Commitment} {agora : AgoraId} {since : Epoch}
  {states : List (AgoraState depth)}

omit [Primitives] in
-- From the boundary that took the leaf out.
theorem barred_start (hsound : state.Sound) (hagora : state.agora = agora)
    (hcut : CutOff state.revocations state.spends opening leaf agora) :
    Barred opening leaf agora state.epoch [state] state where
  sameAgora := hagora
  stands := List.mem_singleton_self _
  reached := Nat.le_refl _
  cut := hcut
  snapshots := by
    intro number snapshot hle hsnapshot
    have hdated := hsound.dated number (by
      rw [ExtTreeMap.mem_iff_isSome_getElem?, hsnapshot]
      rfl)
    obtain rfl : number = state.epoch.get := Nat.le_antisymm hdated hle
    rw [hsound.rooted, Option.some_inj] at hsnapshot
    rw [← hsnapshot]
    exact ⟨state, List.mem_singleton_self _, rfl, rfl, hcut⟩

theorem Barred.step (hbarred : Barred opening leaf agora since states before)
    (hcourse : Course before after) : Barred opening leaf agora since (states ++ [after]) after where
  sameAgora := hcourse.agora.trans hbarred.sameAgora
  stands := List.mem_append_right _ (List.mem_singleton_self _)
  reached := Nat.le_trans hbarred.reached hcourse.epoch_le
  cut := hcourse.cutOff hbarred.cut
  snapshots := by
    intro number snapshot hle hsnapshot
    have hearlier : before.history[number]? = some snapshot → ∃ stood ∈ states ++ [after],
        snapshot.revocation = stood.revocations.root ∧ snapshot.spend = stood.spends.root ∧
          CutOff stood.revocations stood.spends opening leaf agora := by
      intro hbefore
      obtain ⟨stood, hstood, hroots⟩ := hbarred.snapshots number snapshot hle hbefore
      exact ⟨stood, List.mem_append_left _ hstood, hroots⟩
    have hcut := hcourse.cutOff hbarred.cut
    cases hcourse with
    | quiet hquiet => exact hearlier (by rw [← hquiet.history]; exact hsnapshot)
    | policy hready _ => exact hearlier (by rw [← hready.quiet.history]; exact hsnapshot)
    | dissolution hready => exact hearlier (by rw [← hready.quiet.history]; exact hsnapshot)
    | inboxHorizon hready => exact hearlier (by rw [← hready.quiet.history]; exact hsnapshot)
    | @boundary ready _ next _ hready hboundary =>
        simp only [hboundary.history, ExtTreeMap.getElem?_insert, Std.compare_eq_iff_eq] at hsnapshot
        by_cases heq : next.get = number
        · rw [if_pos heq, Option.some_inj] at hsnapshot
          rw [← hsnapshot]
          exact ⟨after, List.mem_append_right _ (List.mem_singleton_self _), rfl, rfl, hcut⟩
        · rw [if_neg heq] at hsnapshot
          exact hearlier (by rw [← hready.quiet.history]; exact hsnapshot)

-- No proof that opens the leaf is accepted against the roots of any epoch since.
theorem Barred.verify_eq_false {proof : StubProof depth} {epoch : Epoch} {policyClass : PolicyClass}
    {roots : EpochRoots} (hbarred : Barred opening leaf agora since states state)
    (hopens : opening.commit agora = some leaf) (hproof : proof.opening.commit agora = some leaf)
    (hfree : Poseidon.CollisionFree (states.flatMap setQueries ++ proof.queries agora ++
      opening.queries agora))
    (hsince : since.get ≤ epoch.get) (hroots : state.rootsIn epoch policyClass = .ok roots)
    (action : Action) :
    (StubProver depth).verify proof (chainPublics state.agora epoch roots action) = false := by
  obtain ⟨snapshot, root, hsnapshot, _, rfl⟩ := rootsIn_eq_ok.1 hroots
  obtain ⟨stood, hstood, hrevocations, hspends, hcut⟩ :=
    hbarred.snapshots epoch.get snapshot hsince hsnapshot
  rw [hbarred.sameAgora]
  refine StubProof.verify_eq_false hproof hopens hcut hrevocations hspends
    (hfree.mono ?_)
  have hsets : stood.revocations.rootQueries ++ stood.spends.rootQueries ⊆
      states.flatMap setQueries := by
    intro query hquery
    exact List.mem_flatMap.2 ⟨stood, hstood, hquery⟩
  exact List.append_subset.2 ⟨List.append_subset.2
    ⟨fun query hquery => List.mem_append_left _ (List.mem_append_left _ (hsets hquery)),
      fun query hquery => List.mem_append_left _ (List.mem_append_right _ hquery)⟩,
    fun query hquery => List.mem_append_right _ hquery⟩

-- A call that presents a chain proof to be counted.
def Presents (event : Event (StubProver depth)) (proof : StubProof depth) : Prop :=
  (∃ session nullifier, event.call = .vouchAttest session proof nullifier) ∨
    (∃ subject nullifier, event.call = .approve subject proof nullifier) ∨
      ∃ policyClass challenge, event.call = .redeemAccess policyClass proof challenge

theorem Barred.refuses {call : Call (StubProver depth)} {outcome : Outcome}
    {proof : StubProof depth} (hbarred : Barred opening leaf agora since states before)
    (htransition : Transition (StubProver depth) before call outcome after)
    (hopens : opening.commit agora = some leaf) (hproof : proof.opening.commit agora = some leaf)
    (hfree : Poseidon.CollisionFree (states.flatMap setQueries ++ proof.queries agora ++
      opening.queries agora))
    (hpresents : Presents ⟨before, call, outcome, after⟩ proof) :
    ∃ refusal, outcome = .error refusal := by
  have hrefused : ∀ {policyClass roots}, before.rootsIn before.epoch policyClass = .ok roots →
      ∀ action, (StubProver depth).verify proof
        (chainPublics before.agora before.epoch roots action) = false :=
    fun hroots action =>
      hbarred.verify_eq_false hopens hproof hfree hbarred.reached hroots action
  cases htransition with
  | @vouchAttest session presented nullifier opened entry roots _ _ _ hroots haccepted _ =>
      obtain ⟨_, _, hcall⟩ | ⟨_, _, hcall⟩ | ⟨_, _, hcall⟩ := hpresents
      · cases hcall
        exact absurd ((hrefused hroots _).symm.trans haccepted) (by decide)
      · cases hcall
      · cases hcall
  | @approve subject presented nullifier proposal roots _ _ hroots haccepted _ =>
      obtain ⟨_, _, hcall⟩ | ⟨_, _, hcall⟩ | ⟨_, _, hcall⟩ := hpresents
      · cases hcall
      · cases hcall
        exact absurd ((hrefused hroots _).symm.trans haccepted) (by decide)
      · cases hcall
  | @redeemAccess policyClass presented challenge roots _ _ hroots haccepted =>
      obtain ⟨_, _, hcall⟩ | ⟨_, _, hcall⟩ | ⟨_, _, hcall⟩ := hpresents
      · cases hcall
      · cases hcall
      · cases hcall
        exact absurd ((hrefused hroots _).symm.trans haccepted) (by decide)
  | refused => exact ⟨_, rfl⟩
  | redeemConsumed => exact ⟨_, rfl⟩
  | _ =>
      obtain ⟨_, _, hcall⟩ | ⟨_, _, hcall⟩ | ⟨_, _, hcall⟩ := hpresents
      all_goals cases hcall

theorem Barred.refuses_migration {policyClass : PolicyClass} {proof : MigrationStubProof depth}
    {spend : Nullifier} {successor : Commitment} {inbox : InboxPublicKey} {outcome : Outcome}
    (hbarred : Barred opening leaf agora since states before) (hsound : before.Sound)
    (htransition : Transition (StubProver depth) before
      (.migrate policyClass proof spend successor inbox) outcome after)
    (hopens : opening.commit agora = some leaf) (hproof : proof.opening.commit agora = some leaf)
    (hfree : Poseidon.CollisionFree (states.flatMap setQueries ++ proof.queries agora ++
      opening.queries agora)) :
    ∃ refusal, outcome = .error refusal := by
  cases htransition with
  | @migrate _ _ _ _ _ _ _ roots _ hmigratable _ _ _ =>
      obtain ⟨snapshot, root, hsnapshot, _, hread⟩ := rootsIn_eq_ok.1 hmigratable.rooted
      rw [hsound.rooted, Option.some_inj] at hsnapshot
      have hroot : roots.revocation = before.revocations.root := by
        rw [hread, ← hsnapshot]
        rfl
      have haccepted := hmigratable.accepted
      rw [hbarred.sameAgora] at haccepted
      have hspent := MigrationStubProof.spent_of_verify haccepted hproof hopens hbarred.cut hroot
        (hfree.mono (by
          have hset : before.revocations.rootQueries ⊆ states.flatMap setQueries := by
            intro query hquery
            exact List.mem_flatMap.2 ⟨before, hbarred.stands, List.mem_append_left _ hquery⟩
          exact List.append_subset.2 ⟨List.append_subset.2
            ⟨fun query hquery => List.mem_append_left _ (List.mem_append_left _ (hset hquery)),
              fun query hquery => List.mem_append_left _ (List.mem_append_right _ hquery)⟩,
            fun query hquery => List.mem_append_right _ hquery⟩))
      exact absurd hspent hmigratable.unspent
  | refused => exact ⟨_, rfl⟩
  | migrateLost => exact ⟨_, rfl⟩

-- Whatever is open was opened within the stretch.
structure Reopened (done : History system) (state : AgoraState depth) : Prop where
  sessions : ∀ session ∈ state.sessions, ∃ event ∈ done, event.outcome = .ok (.session session)
  proposals : ∀ subject ∈ state.proposals, ∃ event ∈ done, event.outcome = .ok (.subject subject)
  challenges : ∀ entropy ∈ state.challenges,
    ∃ event ∈ done, event.outcome = .ok (.challenge ⟨entropy⟩)

omit [Primitives] in
theorem Cleared.reopened (hcleared : Cleared state) : Reopened ([] : History system) state where
  sessions := by simp [hcleared.sessions]
  proposals := by simp [hcleared.proposals]
  challenges := by simp [hcleared.challenges]

omit [Primitives] in
theorem Reopened.mono {done more : History system} (hreopened : Reopened done before)
    (hmore : done ⊆ more) (hsessions : ∀ session ∈ after.sessions, session ∈ before.sessions)
    (hproposals : ∀ subject ∈ after.proposals, subject ∈ before.proposals)
    (hchallenges : ∀ entropy ∈ after.challenges, entropy ∈ before.challenges) :
    Reopened more after where
  sessions session hsession := by
    obtain ⟨event, hevent, hopens⟩ := hreopened.sessions session (hsessions session hsession)
    exact ⟨event, hmore hevent, hopens⟩
  proposals subject hsubject := by
    obtain ⟨event, hevent, hopens⟩ := hreopened.proposals subject (hproposals subject hsubject)
    exact ⟨event, hmore hevent, hopens⟩
  challenges entropy hentropy := by
    obtain ⟨event, hevent, hopens⟩ :=
      hreopened.challenges entropy (hchallenges entropy hentropy)
    exact ⟨event, hmore hevent, hopens⟩

omit [Primitives] in
-- What holds of the keys of a map and of one more holds of them all once that one is in.
private theorem forall_mem_insert {name : DigestName} {ν : Type}
    {opened : ExtTreeMap (Digest name) ν} {key : Digest name} {value : ν}
    {holds : Digest name → Prop} (hkey : holds key) (hopened : ∀ other ∈ opened, holds other) :
    ∀ other ∈ opened.insert key value, holds other := by
  intro other hother
  rcases ExtTreeMap.mem_insert.1 hother with heq | hearlier
  · rw [← Std.LawfulEqCmp.eq_of_compare heq]
    exact hkey
  · exact hopened other hearlier

theorem Transition.reopened {call : Call system} {outcome : Outcome} {done : History system}
    (htransition : Transition system before call outcome after)
    (hreopened : Reopened done before) :
    Reopened (done ++ [⟨before, call, outcome, after⟩]) after := by
  have hmore : done ⊆ done ++ [⟨before, call, outcome, after⟩] := List.subset_append_left _ _
  have hlast : (⟨before, call, outcome, after⟩ : Event system) ∈
      done ++ [⟨before, call, outcome, after⟩] :=
    List.mem_append_right _ (List.mem_singleton_self _)
  have hkept := hreopened.mono hmore (fun _ hsession => hsession) (fun _ hsubject => hsubject)
    (fun _ hentropy => hentropy)
  have hcleared : Cleared after → Reopened (done ++ [⟨before, call, outcome, after⟩]) after :=
    fun hcleared => hcleared.reopened.mono (List.nil_subset _) (fun _ hsession => hsession)
      (fun _ hsubject => hsubject) (fun _ hentropy => hentropy)
  have herased : ∀ {subject}, after.sessions = before.sessions →
      after.proposals = before.proposals.erase subject → after.challenges = before.challenges →
        Reopened (done ++ [⟨before, call, outcome, after⟩]) after := by
    intro subject hsessions hproposals hchallenges
    refine hreopened.mono hmore (by rw [hsessions]; exact fun _ hsession => hsession) ?_
      (by rw [hchallenges]; exact fun _ hentropy => hentropy)
    intro other hother
    rw [hproposals] at hother
    exact ExtTreeMap.mem_of_mem_erase hother
  have hclosed : ∀ {session}, after.sessions = before.sessions.erase session →
      after.proposals = before.proposals → after.challenges = before.challenges →
        Reopened (done ++ [⟨before, call, outcome, after⟩]) after := by
    intro session hsessions hproposals hchallenges
    refine hreopened.mono hmore ?_ (by rw [hproposals]; exact fun _ hsubject => hsubject)
      (by rw [hchallenges]; exact fun _ hentropy => hentropy)
    intro other hother
    rw [hsessions] at hother
    exact ExtTreeMap.mem_of_mem_erase hother
  cases htransition with
  | startVouch =>
      exact ⟨forall_mem_insert ⟨_, hlast, rfl⟩ hkept.sessions, hkept.proposals, hkept.challenges⟩
  | @vouchAttest attested proof nullifier opened _ _ _ hopened _ _ _ _ =>
      have hattested : attested ∈ before.sessions := by
        rw [ExtTreeMap.mem_iff_isSome_getElem?, hopened]
        rfl
      exact ⟨forall_mem_insert (hkept.sessions attested hattested) hkept.sessions,
        hkept.proposals, hkept.challenges⟩
  | propose =>
      exact ⟨hkept.sessions, forall_mem_insert ⟨_, hlast, rfl⟩ hkept.proposals, hkept.challenges⟩
  | @approve approved proof nullifier proposal _ _ hraised _ _ _ =>
      have happroved : approved ∈ before.proposals := by
        rw [ExtTreeMap.mem_iff_isSome_getElem?, hraised]
        rfl
      exact ⟨hkept.sessions, forall_mem_insert (hkept.proposals approved happroved) hkept.proposals,
        hkept.challenges⟩
  | issueChallenge =>
      refine ⟨hkept.sessions, hkept.proposals, ?_⟩
      intro entropy hentropy
      rcases ExtTreeSet.mem_insert.1 hentropy with heq | hearlier
      · rw [← Std.LawfulEqCmp.eq_of_compare heq]
        exact ⟨_, hlast, rfl⟩
      · exact hkept.challenges entropy hearlier
  | redeemAccess =>
      exact hreopened.mono hmore (fun _ hsession => hsession) (fun _ hsubject => hsubject)
        fun _ hentropy => ExtTreeSet.mem_of_mem_erase hentropy
  | redeemConsumed =>
      exact hreopened.mono hmore (fun _ hsession => hsession) (fun _ hsubject => hsubject)
        fun _ hentropy => ExtTreeSet.mem_of_mem_erase hentropy
  | vouchFinalize => exact hclosed rfl rfl rfl
  | finalizeClosed => exact hclosed rfl rfl rfl
  | finalizeConsumed => exact hclosed rfl rfl rfl
  | finalizeLost => exact hclosed rfl rfl rfl
  | executeConsumed => exact herased rfl rfl rfl
  | executeLost => exact herased rfl rfl rfl
  | execute _ heffect =>
      rcases heffect.clears_or_keeps with hall | huntouched
      · exact hcleared hall
      · exact herased huntouched.sessions huntouched.proposals huntouched.challenges
  | advanceEpoch _ hboundary => exact hcleared hboundary.cleared
  | _ => exact ⟨hkept.sessions, hkept.proposals, hkept.challenges⟩

omit [Primitives] in
theorem visited_concat {done : History system} {event : Event system} :
    visited start (done ++ [event]) = visited start done ++ [event.after] := by
  simp [visited]

theorem Execution.barred {done : History system}
    (hexecution : Execution system start done state) (hsound : start.Sound)
    (hagora : start.agora = agora)
    (hcut : CutOff start.revocations start.spends opening leaf agora) :
    Barred opening leaf agora start.epoch (visited start done) state := by
  refine (execution_invariant (motive := fun done current =>
    Barred opening leaf agora start.epoch (visited start done) current) hexecution hsound
    (barred_start hsound hagora hcut) ?_).2
  intro done before after call outcome _ hbarred htransition
  rw [visited_concat]
  exact hbarred.step htransition.course

theorem Execution.reopened {done : History system}
    (hexecution : Execution system start done state) (hsound : start.Sound)
    (hcleared : Cleared start) : Reopened done state :=
  (execution_invariant (motive := fun done current => Reopened done current) hexecution hsound
    hcleared.reopened fun _ _ _ _ _ _ hreopened htransition => htransition.reopened hreopened).2

-- What an accepted call named was open before it.
theorem Transition.session_open {call : Call system} {outcome : Outcome} {session : SessionId}
    (htransition : Transition system before call outcome after)
    (hcall : (∃ proof nullifier, call = .vouchAttest session proof nullifier) ∨
      call = .vouchFinalize session) :
    session ∈ before.sessions ∨ ∃ refusal, outcome = .error refusal := by
  have hopen : ∀ {opened}, before.sessions[session]? = some opened → session ∈ before.sessions := by
    intro opened hopened
    rw [ExtTreeMap.mem_iff_isSome_getElem?, hopened]
    rfl
  cases htransition with
  | vouchAttest _ hopened =>
      obtain ⟨_, _, hcall⟩ | hcall := hcall
      · cases hcall
        exact Or.inl (hopen hopened)
      · cases hcall
  | vouchFinalize _ hopened =>
      obtain ⟨_, _, hcall⟩ | hcall := hcall
      · cases hcall
      · cases hcall
        exact Or.inl (hopen hopened)
  | refused => exact Or.inr ⟨_, rfl⟩
  | finalizeClosed => exact Or.inr ⟨_, rfl⟩
  | finalizeConsumed => exact Or.inr ⟨_, rfl⟩
  | finalizeLost => exact Or.inr ⟨_, rfl⟩
  | _ =>
      obtain ⟨_, _, hcall⟩ | hcall := hcall
      all_goals cases hcall

theorem Transition.proposal_open {call : Call system} {outcome : Outcome} {subject : SubjectId}
    (htransition : Transition system before call outcome after)
    (hcall : (∃ proof nullifier, call = .approve subject proof nullifier) ∨
      call = .execute subject) :
    subject ∈ before.proposals ∨ ∃ refusal, outcome = .error refusal := by
  have hopen : ∀ {proposal}, before.proposals[subject]? = some proposal →
      subject ∈ before.proposals := by
    intro proposal hraised
    rw [ExtTreeMap.mem_iff_isSome_getElem?, hraised]
    rfl
  cases htransition with
  | approve _ hraised =>
      obtain ⟨_, _, hcall⟩ | hcall := hcall
      · cases hcall
        exact Or.inl (hopen hraised)
      · cases hcall
  | execute hcarried =>
      obtain ⟨_, _, hcall⟩ | hcall := hcall
      · cases hcall
      · cases hcall
        exact Or.inl (hopen hcarried.raised)
  | refused => exact Or.inr ⟨_, rfl⟩
  | executeConsumed => exact Or.inr ⟨_, rfl⟩
  | executeLost => exact Or.inr ⟨_, rfl⟩
  | _ =>
      obtain ⟨_, _, hcall⟩ | hcall := hcall
      all_goals cases hcall

theorem Transition.challenge_open {policyClass : PolicyClass} {proof : system.Proof}
    {challenge : Challenge} {outcome : Outcome}
    (htransition : Transition system before (.redeemAccess policyClass proof challenge) outcome
      after) : challenge.asBytes ∈ before.challenges ∨ ∃ refusal, outcome = .error refusal := by
  cases htransition with
  | redeemAccess _ hissued => exact Or.inl hissued
  | refused => exact Or.inr ⟨_, rfl⟩
  | redeemConsumed => exact Or.inr ⟨_, rfl⟩

-- A capability is for the epoch it was granted in.
theorem Transition.access_epoch {call : Call system} {outcome : Outcome} {access : MemberAccess}
    (htransition : Transition system before call outcome after)
    (hgranted : outcome = .ok (.access access)) : access.epoch = before.epoch := by
  cases htransition with
  | redeemAccess =>
      cases hgranted
      rfl
  | _ => cases hgranted

-- Once a leaf's revocation entry or its spend has landed, no stub proof that opens the leaf is
-- accepted again, for any class, and nothing that was open before the boundary is.
theorem revocation_and_spend_are_permanent {founding : Founding}
    {tagSecret statementEntropy : Bytes 32} {logSeed : Option (Bytes 32)}
    {created : AgoraState depth}
    (hcreate : create founding tagSecret statementEntropy logSeed = .ok created)
    {earlier later : History (StubProver depth)} {turn : Event (StubProver depth)}
    (hexecution : Execution (StubProver depth) created (earlier ++ turn :: later) state)
    (hturns : Turns turn) (hopens : opening.commit founding.agora = some leaf)
    (hcut : CutOff turn.after.revocations turn.after.spends opening leaf founding.agora) :
    (∀ proof : StubProof depth, proof.opening.commit founding.agora = some leaf →
      Poseidon.CollisionFree ((visited turn.after later).flatMap setQueries ++
        proof.queries founding.agora ++ opening.queries founding.agora) →
      (∀ event ∈ later, Presents event proof → ∃ refusal, event.outcome = .error refusal) ∧
      ∀ access policyClass (epoch : Epoch) message nullifier left,
        turn.after.epoch.get ≤ epoch.get →
          verifyAttestation (StubProver depth) access policyClass epoch proof message nullifier
            state ≠ .ok true left) ∧
    (∀ proof : MigrationStubProof depth, proof.opening.commit founding.agora = some leaf →
      Poseidon.CollisionFree ((visited turn.after later).flatMap setQueries ++
        proof.queries founding.agora ++ opening.queries founding.agora) →
      ∀ event ∈ later, ∀ policyClass spend successor inbox,
        event.call = .migrate policyClass proof spend successor inbox →
          ∃ refusal, event.outcome = .error refusal) ∧
    (∀ (between rest : History (StubProver depth)) (event : Event (StubProver depth)),
      later = between ++ event :: rest →
      (∀ session, (∃ proof nullifier, event.call = .vouchAttest session proof nullifier) ∨
        event.call = .vouchFinalize session →
          (∀ again ∈ between, again.outcome ≠ .ok (.session session)) →
            ∃ refusal, event.outcome = .error refusal) ∧
      (∀ subject, (∃ proof nullifier, event.call = .approve subject proof nullifier) ∨
        event.call = .execute subject →
          (∀ again ∈ between, again.outcome ≠ .ok (.subject subject)) →
            ∃ refusal, event.outcome = .error refusal) ∧
      ∀ policyClass proof challenge, event.call = .redeemAccess policyClass proof challenge →
        (∀ again ∈ between, again.outcome ≠ .ok (.challenge challenge)) →
          ∃ refusal, event.outcome = .error refusal) ∧
    ∀ granting ∈ earlier, ∀ access, granting.outcome = .ok (.access access) →
      Bars (StubProver depth) state access := by
  have hfresh := fresh_of_create hcreate
  obtain ⟨hbefore, _, hturning, hsound, hlater⟩ := hexecution.at_event hfresh.sound
  obtain ⟨_, ready, next, hready, hboundary⟩ := hturning.boundary_of_turns hturns
  have hagora : turn.after.agora = founding.agora := by
    have hstart : turn.before.agora = founding.agora :=
      (hbefore.agora hfresh.sound).trans hfresh.agora
    exact hturning.course.agora.trans hstart
  -- Where one later event starts from, with the states visited so far.
  have hat : ∀ {between rest : History (StubProver depth)} {event : Event (StubProver depth)},
      later = between ++ event :: rest →
      Barred opening leaf founding.agora turn.after.epoch (visited turn.after between)
        event.before ∧ event.before.Sound ∧ Reopened between event.before ∧
        Transition (StubProver depth) event.before event.call event.outcome event.after ∧
        (visited turn.after between).flatMap setQueries ⊆
          (visited turn.after later).flatMap setQueries := by
    rintro between rest event rfl
    obtain ⟨hbetween, hstands, htransition, _, _⟩ := hlater.at_event hsound
    refine ⟨hbetween.barred hsound hagora hcut, hstands,
      hbetween.reopened hsound hboundary.cleared, htransition, ?_⟩
    intro query hquery
    obtain ⟨stood, hstood, hmem⟩ := List.mem_flatMap.1 hquery
    refine List.mem_flatMap.2 ⟨stood, ?_, hmem⟩
    rw [visited, List.map_append, ← List.cons_append]
    exact List.mem_append_left _ hstood
  have hmono : ∀ {first second queries : List (List F)}, first ⊆ second →
      Poseidon.CollisionFree (second ++ queries ++ opening.queries founding.agora) →
        Poseidon.CollisionFree (first ++ queries ++ opening.queries founding.agora) := by
    intro first second queries hsubset hfree
    refine hfree.mono ?_
    exact List.append_subset.2 ⟨List.append_subset.2
      ⟨fun query hquery => List.mem_append_left _ (List.mem_append_left _ (hsubset hquery)),
        fun query hquery => List.mem_append_left _ (List.mem_append_right _ hquery)⟩,
      fun query hquery => List.mem_append_right _ hquery⟩
  refine ⟨?_, ?_, ?_, ?_⟩
  · intro proof hproof hfree
    constructor
    · intro event hevent hpresents
      obtain ⟨between, rest, hsplit⟩ := List.append_of_mem hevent
      obtain ⟨hbarred, _, _, htransition, hsubset⟩ := hat hsplit
      exact hbarred.refuses htransition hopens hproof (hmono hsubset hfree) hpresents
    · intro access policyClass epoch message nullifier left hsince hverified
      obtain ⟨_, _, ⟨roots, hroots, haccepted⟩, _⟩ := verifyAttestation_eq_ok.1 hverified
      have hbarred := hlater.barred hsound hagora hcut
      have hrefused := hbarred.verify_eq_false hopens hproof hfree hsince hroots
        (.Authorship message nullifier)
      exact absurd (haccepted.trans hrefused) (by decide)
  · intro proof hproof hfree event hevent policyClass spend successor inbox hcall
    obtain ⟨between, rest, hsplit⟩ := List.append_of_mem hevent
    obtain ⟨hbarred, hstands, _, htransition, hsubset⟩ := hat hsplit
    rw [hcall] at htransition
    exact hbarred.refuses_migration hstands htransition hopens hproof (hmono hsubset hfree)
  · intro between rest event hsplit
    obtain ⟨_, _, hreopened, htransition, _⟩ := hat hsplit
    refine ⟨?_, ?_, ?_⟩
    · intro session hcall hclosed
      refine (htransition.session_open hcall).resolve_left fun hopen => ?_
      obtain ⟨again, hagain, hopened⟩ := hreopened.sessions session hopen
      exact hclosed again hagain hopened
    · intro subject hcall hclosed
      refine (htransition.proposal_open hcall).resolve_left fun hopen => ?_
      obtain ⟨again, hagain, hopened⟩ := hreopened.proposals subject hopen
      exact hclosed again hagain hopened
    · intro policyClass proof challenge hcall hclosed
      rw [hcall] at htransition
      refine htransition.challenge_open.resolve_left fun hopen => ?_
      obtain ⟨again, hagain, hopened⟩ := hreopened.challenges _ hopen
      exact hclosed again hagain hopened
  · intro granting hgranting access hgranted
    obtain ⟨first, rest, rfl⟩ := List.append_of_mem hgranting
    obtain ⟨_, _, hgrants, hafter, hrest⟩ := hbefore.at_event hfresh.sound
    refine bars_of_ne fun hepoch => ?_
    have hearlier := hrest.epoch_le hafter
    have hgrown := hgrants.course.epoch_le
    have hnext := hboundary.epoch_get
    have hreached := hlater.epoch_le hsound
    rw [hready.quiet.epoch] at hnext
    rw [hgrants.access_epoch hgranted] at hepoch
    rw [← hepoch] at hreached
    omega

end Nymora.Protocol.Operator.AgoraState

namespace Nymora.Protocol.Operator.AgoraState.Sample

open Nymora.Core
open Nymora.Crypto
open Nymora.Accumulator
open Nymora.Circuits
open Nymora.Proofs
open scoped Nymora.Crypto.Reference

-- A founder whose secrets are known, and a proof of its standing.
def rootSecret : Bytes 32 := Bytes.ofNatLe 32 2

def epochSecret : EpochSecretKey := .new (Bytes.ofNatLe 32 3)

def rootKey : Bytes 32 := (Signature.publicKey rootSecret).get (by decide +kernel)

def epochKey : Bytes 32 := (Signature.publicKey epochSecret.expose).get (by decide +kernel)

def secrets : Opening := ⟨rootKey.toList, .new (Bytes.replicate 32 4), .new (Bytes.replicate 32 5)⟩

def member : Commitment := (secrets.commit founding.agora).get (by decide +kernel)

def known : Founding := { founding with founder := member }

theorem known_founds :
    (create known entropy entropy none : Except _ (AgoraState 1)).toOption.isSome := by
  decide +kernel

def knownStart : AgoraState 1 := (create known entropy entropy none).toOption.get known_founds

theorem create_knownStart : create known entropy entropy none = .ok knownStart :=
  eq_ok_get known_founds

def knownRoots : EpochRoots :=
  (knownStart.rootsIn known.genesis members).toOption.get (by decide +kernel)

def expulsion : SubjectId :=
  subjectId known.agora known.genesis members (.Revocation member) entropy

def approval : Nullifier :=
  Nullifier.policy secrets.credentialKey expulsion.asBytes.toList known.agora

def certificate : Bytes 64 :=
  ((Signature.epochCertMessage known.agora known.genesis epochKey.toList).bind
    (Signature.sign rootSecret)).get (by decide +kernel)

theorem gap_stands : ((ExclusionSet.new : ExclusionSet 1).tree.witness 0).isSome := by
  decide +kernel

-- The one gap of an empty set.
def absence : AbsenceWitness 1 :=
  ⟨Bytes.zero 32, upperSentinel,
    ((ExclusionSet.new : ExclusionSet 1).tree.witness 0).get gap_stands⟩

def standing : StubProof 1 where
  binding := chainBinding (chainPublics known.agora known.genesis knownRoots
    (.PolicyApproval expulsion.asBytes.toList approval))
  epochKey := epochSecret
  epochPublicKey := epochKey
  epochCertSignature := certificate
  credentialKey := secrets.credentialKey
  rootOpening := secrets.rootOpening
  rootPublicKey := rootKey
  leafWitness := ((knownStart.classes[members]?.bind fun entry => entry.tree.witness 0)).get
    (by decide +kernel)
  revocationAbsence := absence
  spendAbsence := absence

-- The founder approves its own revocation.
def resigning : List (Call (StubProver 1)) :=
  [.propose (.Revocation member) members entropy, .approve expulsion standing approval]

def resignation : Event (StubProver 1) :=
  playing (StubProver 1) knownStart resigning (.execute expulsion)

def returning : List (Call (StubProver 1)) :=
  [.issueChallenge entropy, .redeemAccess members standing ⟨entropy⟩]

theorem resignation_cuts : handsRevocation resignation.outcome = true ∧
    CutOff resignation.after.revocations resignation.after.spends secrets member known.agora ∧
    Poseidon.CollisionFree
      ((visited resignation.after (played (StubProver 1) resignation.after returning)).flatMap
        setQueries ++ standing.queries known.agora ++ secrets.queries known.agora) := by
  unfold CutOff
  decide +kernel

theorem revocation_and_spend_are_permanent_resigned :
    ∃ refusal, (playing (StubProver 1) resignation.after [.issueChallenge entropy]
      (.redeemAccess members standing ⟨entropy⟩)).outcome = .error refusal := by
  obtain ⟨hhands, hcut, hfree⟩ := resignation_cuts
  have hopens : secrets.commit known.agora = some member := (Option.some_get _).symm
  have hexecution := @execution_played _ _ _ knownStart
    (resigning ++ .execute expulsion :: returning)
  rw [played_split, reached_concat] at hexecution
  have hstanding : standing.opening.commit known.agora = some member := hopens
  have hturns : Turns resignation := turns_of_revocation hhands
  have hpermanent := revocation_and_spend_are_permanent create_knownStart hexecution hturns hopens
    hcut
  have hrefuses := (hpermanent.1 standing hstanding hfree).1
  refine hrefuses _ ?_ (Or.inr (Or.inr ⟨members, ⟨entropy⟩, rfl⟩))
  exact List.mem_cons_of_mem _ List.mem_cons_self

end Nymora.Protocol.Operator.AgoraState.Sample
