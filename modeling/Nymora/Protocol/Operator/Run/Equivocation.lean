import Nymora.Protocol.Operator.Run.Between
import Nymora.Protocol.Operator.Run.Governance

namespace Nymora.Protocol.Operator.AgoraState

open Nymora.Core
open Nymora.Crypto
open Nymora.Circuits
open Nymora.Proofs
open Std (ExtTreeMap ExtTreeSet)

variable {depth : Nat} {system : ProofSystem depth}

-- An envelope the host was handed.
def HandsOut (event : Event system) (envelope : Envelope) : Prop :=
  ∃ reply, event.outcome = .ok reply ∧ reply.envelope? = some envelope

variable [Primitives] {before after start state : AgoraState depth} {history : History system}

-- A call that moves nothing an envelope already handed out was built from: an accepted
-- certificate leaves the delivered key of a landed leaf as it is, no policy changes while a log
-- is kept, and a new horizon lapses and revives no delivered registration.
structure Steady (event : Event system) : Prop where
  retire : ∀ leaf inbox proof, event.call = .inboxCertificate leaf inbox .Retire proof →
    verifyInbox system proof event.before.agora leaf inbox .Retire →
      event.before.inboxes[leaf]?.map InboxRecord.key = some inbox →
        Landed event.before leaf → event.before.deliveredKey leaf = none
  renew : ∀ leaf inbox proof, event.call = .inboxCertificate leaf inbox .Renew proof →
    verifyInbox system proof event.before.agora leaf inbox .Renew → Landed event.before leaf →
      leaf ∉ event.before.revokedLeaves → event.before.deliveredKey leaf =
        (some inbox).filter fun key => (Inbox.agree event.before.ephemeralSecretNow key).isSome
  policy : ∀ subject proposal policyClass admissionThreshold governanceQuorum,
    event.call = .execute subject → Carried event.before subject proposal →
      proposal.decision = .Policy policyClass admissionThreshold governanceQuorum →
        event.before.log = none
  inboxHorizon : ∀ subject proposal boundaries, event.call = .execute subject →
    Carried event.before subject proposal → proposal.decision = .InboxHorizon boundaries →
      ∀ leaf record, Landed event.before leaf → leaf ∉ event.before.revokedLeaves →
        event.before.inboxes[leaf]? = some record →
          (Inbox.agree event.before.ephemeralSecretNow record.key).isSome →
            (event.before.epoch.get - record.since.get < event.before.inboxHorizon.toNat ↔
              event.before.epoch.get - record.since.get < boundaries.toNat)

-- What a live agora hands out is the envelope of the state the call leaves, at a boundary or
-- re-served.
theorem Transition.handsOut {call : Call system} {outcome : Outcome} {envelope : Envelope}
    (htransition : Transition system before call outcome after)
    (hhanded : HandsOut (⟨before, call, outcome, after⟩ : Event system) envelope) :
    envelope = after.envelopeNow ∧ before.dissolved = false ∧
      (Turns (⟨before, call, outcome, after⟩ : Event system) ∨ after = before) := by
  obtain ⟨reply, houtcome, henvelope⟩ := hhanded
  cases htransition with
  | advanceEpoch hlive hboundary =>
      cases houtcome
      exact ⟨(Option.some_inj.1 henvelope).symm, hlive, Or.inl ⟨_, Or.inl ⟨rfl, rfl⟩⟩⟩
  | currentEnvelope hlive =>
      cases houtcome
      exact ⟨(Option.some_inj.1 henvelope).symm, hlive, Or.inr rfl⟩
  | @execute subject proposal _ _ hcarried heffect =>
      generalize proposal.decision = decision at heffect
      cases houtcome
      cases heffect with
      | revocation hboundary =>
          exact ⟨(Option.some_inj.1 henvelope).symm, hcarried.live, Or.inl ⟨_, Or.inr rfl⟩⟩
      | _ => cases henvelope
  | refused => cases houtcome
  | finalizeClosed => cases houtcome
  | finalizeConsumed => cases houtcome
  | finalizeLost => cases houtcome
  | migrateLost => cases houtcome
  | executeConsumed => cases houtcome
  | executeLost => cases houtcome
  | redeemConsumed => cases houtcome
  | advanceLost => cases houtcome
  | _ =>
      cases houtcome
      cases henvelope

theorem SameDelivery.refl (state : AgoraState depth) : SameDelivery state state :=
  ⟨rfl, rfl, rfl, rfl, rfl, rfl, rfl, rfl, rfl, fun _ _ => rfl⟩

theorem SameDelivery.landed (hsame : SameDelivery before after) {leaf : Commitment}
    (hlanded : Landed before leaf) : Landed after leaf := by
  obtain ⟨policyClass, entry, hentry, hleaf⟩ := hlanded
  have hlookup := congrArg (fun classes => classes[policyClass]?) hsame.landings
  simp only [ExtTreeMap.getElem?_map, hentry, Option.map_some, Option.map_eq_some_iff] at hlookup
  obtain ⟨later, hlater, hlandings⟩ := hlookup
  have hpositions : later.positions = entry.positions := congrArg (·.2.2) hlandings
  exact ⟨policyClass, later, hlater, hpositions ▸ hleaf⟩

theorem SameDelivery.trans {middle : AgoraState depth} (hfirst : SameDelivery before middle)
    (hsecond : SameDelivery middle after) : SameDelivery before after where
  agora := hsecond.agora.trans hfirst.agora
  epoch := hsecond.epoch.trans hfirst.epoch
  tagSecret := hsecond.tagSecret.trans hfirst.tagSecret
  statementSeed := hsecond.statementSeed.trans hfirst.statementSeed
  history := hsecond.history.trans hfirst.history
  revocations := hsecond.revocations.trans hfirst.revocations
  spends := hsecond.spends.trans hfirst.spends
  head := hsecond.head.trans hfirst.head
  landings := hsecond.landings.trans hfirst.landings
  delivered leaf hlanded :=
    (hsecond.delivered leaf (hfirst.landed hlanded)).trans (hfirst.delivered leaf hlanded)

theorem sameDelivery_retire {leaf : Commitment}
    (hdelivered : Landed state leaf → state.deliveredKey leaf = none) :
    SameDelivery state { state with inboxes := state.inboxes.erase leaf } := by
  refine ⟨rfl, rfl, rfl, rfl, rfl, rfl, rfl, rfl, rfl, ?_⟩
  intro other hlanded
  by_cases heq : leaf = other
  · subst heq
    rw [hdelivered hlanded]
    simp [deliveredKey, inboxLive]
  · simp [deliveredKey, inboxLive, ExtTreeMap.getElem?_erase, heq, ephemeralSecretNow]

theorem sameDelivery_renew {leaf : Commitment} {inbox : InboxPublicKey}
    (hhorizon : MIN_INBOX_HORIZON ≤ state.inboxHorizon) (hunrevoked : leaf ∉ state.revokedLeaves)
    (hdelivered : state.deliveredKey leaf =
      (some inbox).filter fun key => (Inbox.agree state.ephemeralSecretNow key).isSome) :
    SameDelivery state
      { state with inboxes := state.inboxes.insert leaf ⟨inbox, state.epoch⟩ } := by
  have hpositive : 0 < state.inboxHorizon.toNat := by
    have hfloor := UInt64.le_iff_toNat_le.1 hhorizon
    exact Nat.lt_of_lt_of_le (by decide) hfloor
  refine ⟨rfl, rfl, rfl, rfl, rfl, rfl, rfl, rfl, rfl, ?_⟩
  intro other hlanded
  by_cases heq : leaf = other
  · subst heq
    have hlive : AgoraState.inboxLive
        { state with inboxes := state.inboxes.insert leaf ⟨inbox, state.epoch⟩ } leaf =
          some inbox := by
      refine inboxLive_eq_some.2 ⟨hunrevoked, ⟨inbox, state.epoch⟩, by simp, ?_, rfl⟩
      simpa using hpositive
    rw [hdelivered, deliveredKey, hlive]
    rfl
  · simp [deliveredKey, inboxLive, ExtTreeMap.getElem?_insert, heq, ephemeralSecretNow]

theorem sameDelivery_inboxHorizon {boundaries : UInt64}
    (hsides : ∀ leaf record, Landed state leaf → leaf ∉ state.revokedLeaves →
      state.inboxes[leaf]? = some record →
        (Inbox.agree state.ephemeralSecretNow record.key).isSome →
          (state.epoch.get - record.since.get < state.inboxHorizon.toNat ↔
            state.epoch.get - record.since.get < boundaries.toNat)) :
    SameDelivery state { state with inboxHorizon := boundaries } := by
  refine ⟨rfl, rfl, rfl, rfl, rfl, rfl, rfl, rfl, rfl, ?_⟩
  intro leaf hlanded
  apply Option.ext
  intro key
  rw [deliveredKey_eq_some, deliveredKey_eq_some, inboxLive_eq_some, inboxLive_eq_some]
  constructor
  · rintro ⟨⟨hunrevoked, record, hrecord, hage, rfl⟩, hagree⟩
    exact ⟨⟨hunrevoked, record, hrecord,
      (hsides leaf record hlanded hunrevoked hrecord hagree).2 hage, rfl⟩, hagree⟩
  · rintro ⟨⟨hunrevoked, record, hrecord, hage, rfl⟩, hagree⟩
    exact ⟨⟨hunrevoked, record, hrecord,
      (hsides leaf record hlanded hunrevoked hrecord hagree).1 hage, rfl⟩, hagree⟩

theorem sameDelivery_withPolicy {policyClass : PolicyClass} {entry : ClassState depth}
    {admissionThreshold governanceQuorum : UInt32}
    (hentry : state.classes[policyClass]? = some entry) (hlog : state.log = none) :
    SameDelivery state (state.withPolicy policyClass entry admissionThreshold governanceQuorum) := by
  refine ⟨rfl, rfl, rfl, rfl, rfl, rfl, rfl, ?_, (keeps_withPolicy hentry).landings,
    fun _ _ => rfl⟩
  simp [headNow, withPolicy, hlog]

-- A steady step of a live agora moves nothing an envelope is built from.
theorem Transition.sameDelivery {call : Call system} {outcome : Outcome}
    (htransition : Transition system before call outcome after)
    (hhorizon : MIN_INBOX_HORIZON ≤ before.inboxHorizon)
    (hsteady : Steady (⟨before, call, outcome, after⟩ : Event system))
    (hunturned : ¬ Turns (⟨before, call, outcome, after⟩ : Event system))
    (hlive : after.dissolved = false) : SameDelivery before after := by
  cases htransition with
  | retire _ haccepted hrecord hkey =>
      refine sameDelivery_retire ?_
      exact hsteady.retire _ _ _ rfl haccepted (by rw [hrecord, Option.map_some, hkey])
  | renew _ haccepted hlanded hunrevoked =>
      exact sameDelivery_renew hhorizon hunrevoked
        (hsteady.renew _ _ _ rfl haccepted hlanded hunrevoked)
  | advanceEpoch => exact absurd ⟨_, Or.inl ⟨rfl, rfl⟩⟩ hunturned
  | @execute subject proposal executed _ hcarried heffect =>
      have hpolicy := hsteady.policy subject proposal
      have hsides := hsteady.inboxHorizon subject proposal
      have hconsumed : SameDelivery before (before.consume subject) :=
        ⟨rfl, rfl, rfl, rfl, rfl, rfl, rfl, rfl, rfl, fun _ _ => rfl⟩
      generalize proposal.decision = decision at heffect hpolicy hsides
      cases heffect with
      | policy hentry =>
          exact hconsumed.trans
            (sameDelivery_withPolicy hentry (hpolicy _ _ _ rfl hcarried rfl))
      | revocation => exact absurd ⟨_, Or.inr rfl⟩ hunturned
      | dissolution => cases hlive
      | inboxHorizon =>
          exact hconsumed.trans (sameDelivery_inboxHorizon (hsides _ rfl hcarried rfl))
  | _ => exact ⟨rfl, rfl, rfl, rfl, rfl, rfl, rfl, rfl, rfl, fun _ _ => rfl⟩

-- From one live state to another of the same epoch, steady calls keep the envelope.
theorem Execution.sameDelivery {founding : Founding} {created : AgoraState depth}
    {earlier between : History system} (hfresh : Fresh founding created)
    (hearlier : Execution system created earlier start)
    (hbetween : Execution system start between state)
    (hsteady : ∀ event ∈ between, Steady event) (hunturned : ∀ event ∈ between, ¬ Turns event)
    (hlive : state.dissolved = false) : SameDelivery start state := by
  have hgoverned := hearlier.governed hfresh
  obtain ⟨_, _, hreached⟩ := execution_invariant (motive := fun done current =>
    Governed (earlier ++ done) current ∧
      ((∀ event ∈ done, Steady event ∧ ¬ Turns event) →
        current.dissolved = true ∨ SameDelivery start current)) hbetween
    (hearlier.sound hfresh.sound)
    ⟨by rwa [List.append_nil], fun _ => Or.inr (.refl start)⟩ (by
      intro done before after call outcome _ hdone htransition
      obtain ⟨hbefore, hkept⟩ := hdone
      refine ⟨by rw [← List.append_assoc]; exact hbefore.step htransition, ?_⟩
      intro hsteps
      obtain ⟨hsteady, hunturned⟩ := hsteps _ (List.mem_append_right _ (List.mem_singleton_self _))
      rcases hkept fun event hevent => hsteps event (List.mem_append_left _ hevent) with
        hdissolved | hsame
      · exact Or.inl (htransition.course.dissolved hdissolved)
      · cases hafter : after.dissolved with
        | true => exact Or.inl rfl
        | false => exact Or.inr (hsame.trans
            (htransition.sameDelivery hbefore.settled.horizon hsteady hunturned hafter)))
  rcases hreached fun event hevent => ⟨hsteady event hevent, hunturned event hevent⟩ with
    hdissolved | hsame
  · exact absurd (hlive.symm.trans hdissolved) (by decide)
  · exact hsame

-- In every run over any proof system, two envelopes handed out for one epoch state the same
-- where every call between them was steady, so they prove no fork.
theorem envelopes_never_equivocate {founding : Founding} {tagSecret statementEntropy : Bytes 32}
    {logSeed : Option (Bytes 32)} {created : AgoraState depth}
    (hcreate : create founding tagSecret statementEntropy logSeed = .ok created)
    (hexecution : Execution system created history state)
    {earlier between later : History system} {first second : Event system}
    (hhistory : history = earlier ++ first :: (between ++ second :: later))
    {envelope other : Envelope} (hfirst : HandsOut first envelope)
    (hsecond : HandsOut second other) (hepoch : envelope.epoch = other.epoch)
    (hsteady : ∀ event ∈ between, Steady event) :
    (envelope.statement founding.agora).digest = (other.statement founding.agora).digest ∧
      ∀ statementKey signature otherSignature,
        envelopeEquivocation statementKey (envelope.statement founding.agora) signature
          (other.statement founding.agora) otherSignature = false := by
  have hfresh := fresh_of_create hcreate
  rw [hhistory] at hexecution
  obtain ⟨hearlier, _, htransition, hafter, hrest⟩ := hexecution.at_event hfresh.sound
  obtain ⟨hbetween, _, hlast, _, _⟩ := hrest.at_event hafter
  obtain ⟨henvelope, _, _⟩ := htransition.handsOut hfirst
  obtain ⟨hother, hlive, hserved⟩ := hlast.handsOut hsecond
  have hreached := hearlier.join hexecution.single
  have hsame : second.after.epoch = first.after.epoch := by
    rw [henvelope, hother] at hepoch
    exact hepoch.symm
  -- A second boundary would have turned the epoch.
  have hstands : second.after = second.before := by
    refine hserved.resolve_left fun hturns => ?_
    have honly := hbetween.join hrest.single
    exact honly.unturned hafter hsame second
      (List.mem_append_right _ (List.mem_singleton_self _)) hturns
  rw [hstands] at hsame hother
  have hunturned := hbetween.unturned hafter hsame
  have hdelivery := Execution.sameDelivery hfresh hreached hbetween hsteady hunturned hlive
  have hequal : envelope = other := by rw [henvelope, hother, hdelivery.envelopeNow_eq]
  refine ⟨by rw [hequal], ?_⟩
  intro statementKey signature otherSignature
  simp [envelopeEquivocation, hequal]

-- The envelope handed out in a run is that of the state it leaves.
theorem Execution.handed {earlier later : History system} {event : Event system}
    {envelope : Envelope}
    (hexecution : Execution system start (earlier ++ event :: later) state)
    (hsound : start.Sound) (hhands : HandsOut event envelope) :
    envelope = event.after.envelopeNow := by
  obtain ⟨_, _, htransition, _, _⟩ := hexecution.at_event hsound
  exact (htransition.handsOut hhands).1

theorem handsOut_currentEnvelope (hlive : start.dissolved = false) :
    HandsOut (playing system start [] .currentEnvelope) start.envelopeNow := by
  refine ⟨.envelope start.envelopeNow, ?_, rfl⟩
  unfold playing Runs.event reached
  rw [Runs.final_nil, step_currentEnvelope hlive]

end Nymora.Protocol.Operator.AgoraState

namespace Nymora.Protocol.Operator.AgoraState.Sample

open Nymora.Core
open Nymora.Crypto
open scoped Nymora.Crypto.Reference

-- Between the two hand-outs a candidate announces itself, and the founder renews its address.
def upkeep : List (Call (accepting 2)) :=
  [.credentialsInit candidate otherAddress, .inboxCertificate founder address .Renew ()]

def kept : AgoraState 2 := reached (accepting 2) start upkeep

-- Both calls are taken: the candidate's key is staged, and the founder's record stands renewed.
theorem upkeep_taken : kept.dissolved = false ∧ start.stagedInboxes[candidate]? = none ∧
    kept.stagedInboxes[candidate]? = some otherAddress ∧
    (playing (accepting 2) start (upkeep.take 1)
      (.inboxCertificate founder address .Renew ())).outcome.toOption.isSome ∧
    (reached (accepting 2) start (upkeep.take 1)).deliveredKey founder = some address ∧
    (Inbox.agree (reached (accepting 2) start (upkeep.take 1)).ephemeralSecretNow
      address).isSome := by
  decide +kernel

-- The renewed key is the one the founder is delivered to.
theorem upkeep_steady : ∀ event ∈ played (accepting 2) start upkeep, Steady event := by
  obtain ⟨_, _, _, _, hdelivered, hagree⟩ := upkeep_taken
  have hplayed : played (accepting 2) start upkeep =
      [playing (accepting 2) start [] (.credentialsInit candidate otherAddress),
        playing (accepting 2) start (upkeep.take 1)
          (.inboxCertificate founder address .Renew ())] := rfl
  intro event hevent
  rw [hplayed] at hevent
  simp only [List.mem_cons, List.not_mem_nil, or_false] at hevent
  rcases hevent with hevent | hevent
  · rw [hevent]
    constructor
    · intro _ _ _ hcall
      cases hcall
    · intro _ _ _ hcall
      cases hcall
    · intro _ _ _ _ _ hcall
      cases hcall
    · intro _ _ _ hcall
      cases hcall
  · rw [hevent]
    constructor
    · intro _ _ _ hcall
      cases hcall
    · intro leaf inbox proof hcall _ _ _
      obtain ⟨hleaf, hinbox, _, _⟩ := Call.inboxCertificate.inj hcall
      have hbefore : (playing (accepting 2) start (upkeep.take 1)
          (.inboxCertificate founder address .Renew ())).before =
            reached (accepting 2) start (upkeep.take 1) := rfl
      rw [← hleaf, ← hinbox, hbefore, hdelivered]
      rw [Option.filter_some, if_pos hagree]
    · intro _ _ _ _ _ hcall
      cases hcall
    · intro _ _ _ hcall
      cases hcall

-- So the envelope served again states the same, though the agora has moved on.
theorem envelopes_never_equivocate_reserved :
    HandsOut (playing (accepting 2) start [] .currentEnvelope) start.envelopeNow ∧
    HandsOut (playing (accepting 2) kept [] .currentEnvelope) kept.envelopeNow ∧
    start.stagedInboxes[candidate]? ≠ kept.stagedInboxes[candidate]? ∧
    (playing (accepting 2) start (upkeep.take 1)
      (.inboxCertificate founder address .Renew ())).outcome.toOption.isSome ∧
    (start.envelopeNow.statement founding.agora).digest =
      (kept.envelopeNow.statement founding.agora).digest ∧
    envelopeEquivocation start.statementKey.toList
      (start.envelopeNow.statement founding.agora) start.envelopeNow.signature.toList
      (kept.envelopeNow.statement founding.agora) kept.envelopeNow.signature.toList = false := by
  obtain ⟨hlive, hbefore, hafter, haccepted, _⟩ := upkeep_taken
  have hplayed : played (accepting 2) start (.currentEnvelope :: (upkeep ++ [.currentEnvelope])) =
      [] ++ playing (accepting 2) start [] .currentEnvelope ::
        (played (accepting 2) start upkeep ++
          playing (accepting 2) kept [] .currentEnvelope :: []) := by
    rw [played_currentEnvelope start_live, played_split]
    rfl
  have hfirst := @handsOut_currentEnvelope _ (accepting 2) _ _ start_live
  have hsecond := @handsOut_currentEnvelope _ (accepting 2) _ _ hlive
  have hepoch : start.envelopeNow.epoch = kept.envelopeNow.epoch := by decide +kernel
  obtain ⟨hdigest, hequivocates⟩ := envelopes_never_equivocate create_start (execution_played _)
    hplayed hfirst hsecond hepoch upkeep_steady
  refine ⟨hfirst, hsecond, ?_, haccepted, hdigest, hequivocates _ _ _⟩
  rw [hbefore, hafter]
  simp

-- The founder retires its address in mid-epoch, and the envelope served again lacks its
-- ciphertext.
def retirement : Call (accepting 2) := .inboxCertificate founder address .Retire ()

def retired : AgoraState 2 := (step (accepting 2) start retirement).2

theorem retirement_equivocates : ∃ first second envelope other,
    played (accepting 2) start [.currentEnvelope, retirement, .currentEnvelope] =
      [first, playing (accepting 2) start [] retirement, second] ∧
    HandsOut first envelope ∧ HandsOut second other ∧ envelope.epoch = other.epoch ∧
    (envelope.statement founding.agora).digest ≠ (other.statement founding.agora).digest ∧
    envelopeEquivocation start.statementKey.toList
      (envelope.statement founding.agora) envelope.signature.toList
      (other.statement founding.agora) other.signature.toList = true := by
  have hretired : retired.dissolved = false := by decide +kernel
  refine ⟨playing (accepting 2) start [] .currentEnvelope,
    playing (accepting 2) retired [] .currentEnvelope, start.envelopeNow,
    retired.envelopeNow, ?_, handsOut_currentEnvelope start_live,
    handsOut_currentEnvelope hretired, ?_⟩
  · have hagain := @played_currentEnvelope _ _ (accepting 2) _ hretired []
    rw [played_currentEnvelope start_live]
    exact congrArg (fun later => playing (accepting 2) start [] .currentEnvelope ::
      playing (accepting 2) start [] retirement :: later) hagain
  · decide +kernel

end Nymora.Protocol.Operator.AgoraState.Sample
