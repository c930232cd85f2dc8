import Nymora.Protocol.Operator.Run.Arrival

namespace Nymora.Protocol.Operator.AgoraState

open Nymora.Core
open Nymora.Crypto
open Nymora.Circuits
open Nymora.Proofs
open Method
open Std (ExtTreeMap ExtTreeSet)

variable {depth : Nat} {system : ProofSystem depth}

-- An accepted inbox instruction with its proof.
def Instructs (event : Event system) (leaf : Commitment) (inbox : InboxPublicKey)
    (action : InboxAction) (proof : system.InboxProof) : Prop :=
  event.call = .inboxCertificate leaf inbox action proof ∧ event.outcome = .ok .recorded

-- An accepted retirement of a leaf's registration.
def Retires (event : Event system) (leaf : Commitment) : Prop :=
  ∃ inbox proof, Instructs event leaf inbox .Retire proof

-- The submission of an instruction that the history already accepted.
def Replays (earlier : History system) (event : Event system) (leaf : Commitment)
    (inbox : InboxPublicKey) (action : InboxAction) (proof : system.InboxProof) : Prop :=
  event.call = .inboxCertificate leaf inbox action proof ∧
    ∃ accepted ∈ earlier, Instructs accepted leaf inbox action proof

-- A registration made live by a step.
def Revives (event : Event system) (leaf : Commitment) : Prop :=
  event.before.inboxLive leaf = none ∧ (event.after.inboxLive leaf).isSome

-- A registration whose horizon a step begins anew.
def Resets (event : Event system) (leaf : Commitment) : Prop :=
  ∃ record, event.after.inboxes[leaf]? = some record ∧
    event.before.inboxes[leaf]?.map InboxRecord.since ≠ some record.since

-- A stretch in which only instructions accepted before it renew a leaf, and no boundary
-- registers it.
structure Neglects (earlier between : History system) (leaf : Commitment) : Prop where
  replayed : ∀ event ∈ between, ∀ inbox proof, Instructs event leaf inbox .Renew proof →
    ∃ accepted ∈ earlier, Instructs accepted leaf inbox .Renew proof
  unstaged : ∀ event ∈ between, Turns event → leaf ∈ event.before.staged.admissions.map Prod.snd →
    event.before.stagedInboxes[leaf]? = none

-- A replayed renewal that does nothing: refused, or of a registration that stands as a renewal
-- would leave it.
def Inert (earlier : History system) (event : Event system) (leaf : Commitment) : Prop :=
  event.before.dissolved = true ∨ leaf ∈ event.before.revokedLeaves ∨
    ((∃ retiring ∈ earlier, Retires retiring leaf) → (event.before.inboxLive leaf).isSome) ∧
      ((∃ accepted ∈ earlier, accepted.call = event.call ∧ accepted.outcome = .ok .recorded ∧
          accepted.before.epoch.get < event.before.epoch.get) →
        event.before.inboxes[leaf]?.map InboxRecord.since = some event.before.epoch)

-- Registrations begin at epochs that have begun.
def Begun (state : AgoraState depth) : Prop :=
  ∀ (leaf : Commitment) (record : InboxRecord), state.inboxes[leaf]? = some record →
    record.since.get ≤ state.epoch.get

variable [Primitives] {before after created start state : AgoraState depth}
  {history : History system}

-- No replay revives a leaf that has been retired, none at a later epoch begins a horizon anew,
-- and a registration that only replays renew lapses.
structure Unreplayable (created : AgoraState depth) (history : History system) : Prop where
  retired : ∀ earlier event later leaf, history = earlier ++ event :: later →
    (∃ retiring ∈ earlier, Retires retiring leaf) →
      ∀ other inbox action proof, Replays earlier event other inbox action proof →
        ¬ Revives event leaf
  renewed : ∀ earlier event later leaf inbox proof, history = earlier ++ event :: later →
    event.call = .inboxCertificate leaf inbox .Renew proof →
      ∀ accepted ∈ earlier, Instructs accepted leaf inbox .Renew proof →
        accepted.before.epoch.get < event.before.epoch.get → ¬ Resets event leaf
  lapses : ∀ earlier between later start finish leaf, history = earlier ++ (between ++ later) →
    Execution system created earlier start → Execution system start between finish →
      Neglects earlier between leaf →
        start.epoch.get + finish.inboxHorizon.toNat ≤ finish.epoch.get →
          finish.inboxLive leaf = none

-- A certificate touches the registration of no other leaf.
theorem Transition.inboxes_of_ne {leaf other : Commitment} {inbox : InboxPublicKey}
    {action : InboxAction} {proof : system.InboxProof} {outcome : Outcome}
    (htransition : Transition system before (.inboxCertificate leaf inbox action proof) outcome
      after) (hne : other ≠ leaf) :
    after.inboxes[other]? = before.inboxes[other]? ∧ after.inboxLive other = before.inboxLive other := by
  cases htransition with
  | refused => exact ⟨rfl, rfl⟩
  | retire => simp [inboxLive, ExtTreeMap.getElem?_erase, hne.symm]
  | renew => simp [inboxLive, ExtTreeMap.getElem?_insert, hne.symm]

-- A certificate that leaves a leaf live without its having been so renewed it.
theorem Transition.renews_of_certificate {leaf : Commitment} {inbox : InboxPublicKey}
    {action : InboxAction} {proof : system.InboxProof} {outcome : Outcome}
    (htransition : Transition system before (.inboxCertificate leaf inbox action proof) outcome
      after) :
    after.inboxes = before.inboxes ∧ after.inboxLive leaf = before.inboxLive leaf ∨
      after.inboxes[leaf]? = none ∨
      action = .Renew ∧ before.dissolved = false ∧ leaf ∉ before.revokedLeaves ∧
        after.inboxes[leaf]? = some ⟨inbox, before.epoch⟩ := by
  cases htransition with
  | refused => exact Or.inl ⟨rfl, rfl⟩
  | retire => exact Or.inr (Or.inl (by simp))
  | renew hlive _ _ hunrevoked => exact Or.inr (Or.inr ⟨rfl, hlive, hunrevoked, by simp⟩)

-- A replayed renewal is refused only by an agora that has dissolved or revoked the leaf.
theorem Execution.replay_renews {earlier later : History system} {event : Event system}
    {leaf : Commitment} {inbox : InboxPublicKey} {proof : system.InboxProof}
    (hexecution : Execution system start (earlier ++ event :: later) state)
    (hsound : start.Sound) (hreplays : Replays earlier event leaf inbox .Renew proof)
    (hlive : event.before.dissolved = false) (hunrevoked : leaf ∉ event.before.revokedLeaves) :
    event.after = { event.before with
      inboxes := event.before.inboxes.insert leaf ⟨inbox, event.before.epoch⟩ } := by
  obtain ⟨hcall, accepted, haccepted, hinstructs, houtcome⟩ := hreplays
  have hperformed := hexecution.performed
  obtain ⟨first, rest, rfl⟩ := List.append_of_mem haccepted
  rw [List.append_assoc, List.cons_append] at hexecution
  obtain ⟨_, _, hfirst, hafter, hrest⟩ := hexecution.at_event hsound
  obtain ⟨hbetween, _, _, _, _⟩ := hrest.at_event hafter
  obtain ⟨hverified, hlanded⟩ : verifyInbox system proof accepted.after.agora leaf inbox .Renew ∧
      Landed accepted.after leaf := by
    have hagora := hfirst.course.agora
    rw [hinstructs, houtcome] at hfirst
    have hstands : Landed accepted.before leaf → Landed accepted.after leaf :=
      fun hlanded => hfirst.course.landed hlanded
    generalize accepted.after = renewed at *
    cases hfirst with
    | renew _ hverified hlanded _ => exact ⟨hagora ▸ hverified, hstands hlanded⟩
  have hrenew : inboxCertificate system leaf inbox .Renew proof event.before = .ok .mk
      { event.before with
        inboxes := event.before.inboxes.insert leaf ⟨inbox, event.before.epoch⟩ } := by
    refine inboxCertificate_renew_eq_ok.2 ⟨hlive, ?_, hbetween.landed hafter hlanded, hunrevoked,
      rfl⟩
    rw [hbetween.agora hafter]
    exact hverified
  have hcertified : perform system (.inboxCertificate leaf inbox .Renew proof) event.before =
      .ok .recorded { event.before with
        inboxes := event.before.inboxes.insert leaf ⟨inbox, event.before.epoch⟩ } := by
    rw [perform, bind_pure_eq_ok]
    exact ⟨_, hrenew, rfl⟩
  rw [hcall, step, hcertified] at hperformed
  exact (Prod.mk.inj hperformed).2.symm

omit [Primitives] in
theorem Fresh.begun {founding : Founding} (hfresh : Fresh founding created) : Begun created := by
  intro leaf record hrecord
  rw [hfresh.inboxes] at hrecord
  simp only [ExtTreeMap.getElem?_insert, Std.compare_eq_iff_eq] at hrecord
  by_cases heq : founding.founder = leaf
  · rw [if_pos heq, Option.some_inj] at hrecord
    rw [← hrecord, hfresh.epoch]
  · rw [if_neg heq] at hrecord
    simp at hrecord

theorem Execution.begun (hexecution : Execution system created history state)
    (hsound : created.Sound) (hbegun : Begun created) : Begun state := by
  refine hexecution.carries hsound hbegun ?_
  intro before after call outcome _ htransition hearlier leaf record hrecord
  have hle := htransition.course.epoch_le
  rcases htransition.inboxes hrecord with hbefore | ⟨_, hsince⟩ | ⟨_, _, _, hsince⟩
  · exact Nat.le_trans (hearlier leaf record hbefore) hle
  · rw [hsince]
    exact hle
  · rw [hsince]

-- Over a stretch that neglects a leaf, its registration stays as old as it was.
theorem Execution.neglected {earlier between : History system} {leaf : Commitment}
    (hearlier : Execution system created earlier start) (hsound : created.Sound)
    (hbegun : Begun created) (hbetween : Execution system start between state)
    (hneglects : Neglects earlier between leaf)
    (hrenewed : ∀ done event rest inbox proof, between = done ++ event :: rest →
      event.call = .inboxCertificate leaf inbox .Renew proof →
        ∀ accepted ∈ earlier, Instructs accepted leaf inbox .Renew proof →
          accepted.before.epoch.get < event.before.epoch.get → ¬ Resets event leaf)
    {record : InboxRecord} (hrecord : state.inboxes[leaf]? = some record) :
    record.since.get ≤ start.epoch.get := by
  refine (execution_invariant (motive := fun done current => done <+: between →
    ∀ record : InboxRecord, current.inboxes[leaf]? = some record →
      record.since.get ≤ start.epoch.get) hbetween
    (hearlier.sound hsound) (fun _ => hearlier.begun hsound hbegun leaf) ?_).2
    List.prefix_rfl record hrecord
  intro done before after call outcome _ hdone htransition hwithin record hafter
  have hstood := hdone ((List.prefix_append _ _).trans hwithin)
  obtain ⟨rest, hrest⟩ := hwithin
  rw [List.append_assoc, List.singleton_append] at hrest
  have hevent : (⟨before, call, outcome, after⟩ : Event system) ∈ between := by
    rw [← hrest]
    exact List.mem_append_right _ List.mem_cons_self
  rcases htransition.inboxes hafter with hbefore | ⟨⟨⟨proof, hcall⟩, houtcome⟩, hsince⟩ |
    ⟨hturns, hstaged, hkey, _⟩
  · exact hstood record hbefore
  · obtain ⟨accepted, haccepted, hinstructs⟩ :=
      hneglects.replayed _ hevent record.key proof ⟨hcall, houtcome⟩
    have hold : accepted.before.epoch.get ≤ start.epoch.get := by
      obtain ⟨first, second, rfl⟩ := List.append_of_mem haccepted
      obtain ⟨_, _, hfirst, hnext, hlater⟩ := hearlier.at_event hsound
      exact Nat.le_trans hfirst.course.epoch_le (hlater.epoch_le hnext)
    by_cases hlate : before.epoch.get ≤ start.epoch.get
    · rw [hsince]
      exact hlate
    · -- A later epoch's replay leaves the horizon where it was.
      have hkept := hrenewed done _ rest record.key proof hrest.symm hcall accepted haccepted
        hinstructs (Nat.lt_of_le_of_lt hold (Nat.lt_of_not_le hlate))
      have hsame : before.inboxes[leaf]?.map InboxRecord.since = some record.since :=
        Classical.byContradiction fun hne => hkept ⟨record, hafter, hne⟩
      obtain ⟨standing, hstanding, hequal⟩ := Option.map_eq_some_iff.1 hsame
      rw [← hequal]
      exact hstood standing hstanding
  · rw [hneglects.unstaged _ hevent hturns hstaged] at hkey
    cases hkey

-- In every run over any proof system, replays are harmless exactly where each replayed renewal
-- finds the agora dissolved, the leaf revoked, or the registration as it would leave it.
theorem instructions_are_unreplayable {founding : Founding}
    {tagSecret statementEntropy : Bytes 32} {logSeed : Option (Bytes 32)}
    (hcreate : create founding tagSecret statementEntropy logSeed = .ok created)
    (hexecution : Execution system created history state) :
    Unreplayable created history ↔
      ∀ earlier event later leaf inbox proof, history = earlier ++ event :: later →
        Replays earlier event leaf inbox .Renew proof → Inert earlier event leaf := by
  have hfresh := fresh_of_create hcreate
  constructor
  · rintro hunreplayable earlier event later leaf inbox proof rfl hreplays
    by_cases hlive : event.before.dissolved = true
    · exact Or.inl hlive
    by_cases hrevoked : leaf ∈ event.before.revokedLeaves
    · exact Or.inr (Or.inl hrevoked)
    have hafter := hexecution.replay_renews hfresh.sound hreplays
      (Bool.eq_false_iff.2 hlive) hrevoked
    obtain ⟨hearlier, _, _, _, _⟩ := hexecution.at_event hfresh.sound
    have hhorizon := (hearlier.governed hfresh).settled.horizon
    have hpositive : 0 < event.before.inboxHorizon.toNat :=
      Nat.lt_of_lt_of_le (by decide) (UInt64.le_iff_toNat_le.1 hhorizon)
    have hrecord : event.after.inboxes[leaf]? = some ⟨inbox, event.before.epoch⟩ := by
      rw [hafter]
      exact ExtTreeMap.getElem?_insert_self
    refine Or.inr (Or.inr ⟨?_, ?_⟩)
    · intro hretired
      have hrevives := hunreplayable.retired earlier event later leaf rfl hretired leaf inbox .Renew
        proof hreplays
      have halive : event.after.inboxLive leaf = some inbox := by
        refine inboxLive_eq_some.2 ⟨by rw [hafter]; exact hrevoked, _, hrecord, ?_, rfl⟩
        rw [hafter, Nat.sub_self]
        exact hpositive
      cases hbefore : event.before.inboxLive leaf with
      | some key => rfl
      | none => exact absurd ⟨hbefore, by rw [halive]; rfl⟩ hrevives
    · rintro ⟨accepted, haccepted, hcall, houtcome, hlater⟩
      have hresets := hunreplayable.renewed earlier event later leaf inbox proof rfl hreplays.1
        accepted haccepted ⟨hcall.trans hreplays.1, houtcome⟩ hlater
      exact Classical.byContradiction fun hne => hresets ⟨_, hrecord, hne⟩
  · intro hinert
    have hrenewed : ∀ earlier event later leaf inbox proof, history = earlier ++ event :: later →
        event.call = .inboxCertificate leaf inbox .Renew proof →
          ∀ accepted ∈ earlier, Instructs accepted leaf inbox .Renew proof →
            accepted.before.epoch.get < event.before.epoch.get → ¬ Resets event leaf := by
      rintro earlier event later leaf inbox proof rfl hcall accepted haccepted hinstructs hlater
        ⟨record, hrecord, hreset⟩
      obtain ⟨_, _, htransition, _, _⟩ := hexecution.at_event hfresh.sound
      rw [hcall] at htransition
      rcases htransition.renews_of_certificate with ⟨hsame, _⟩ | hnone |
        ⟨_, hlive, hunrevoked, hrenewed⟩
      · rw [hsame] at hrecord
        rw [hrecord] at hreset
        exact hreset rfl
      · rw [hnone] at hrecord
        cases hrecord
      · obtain rfl := Option.some_inj.1 (hrenewed.symm.trans hrecord)
        rcases hinert earlier event later leaf inbox proof rfl ⟨hcall, accepted, haccepted,
          hinstructs⟩ with hdissolved | hrevoked | ⟨_, hsince⟩
        · exact absurd (hlive.symm.trans hdissolved) (by decide)
        · exact hunrevoked hrevoked
        · exact hreset (hsince ⟨accepted, haccepted, hinstructs.1.trans hcall.symm,
            hinstructs.2, hlater⟩)
    refine ⟨?_, hrenewed, ?_⟩
    · rintro earlier event later leaf rfl hretired other inbox action proof hreplays
        ⟨hbefore, hafter⟩
      obtain ⟨_, _, htransition, _, _⟩ := hexecution.at_event hfresh.sound
      rw [hreplays.1] at htransition
      by_cases heq : leaf = other
      · subst heq
        rcases htransition.renews_of_certificate with ⟨_, hsame⟩ | hnone |
          ⟨rfl, hlive, hunrevoked, _⟩
        · rw [hsame, hbefore] at hafter
          cases hafter
        · simp [inboxLive, hnone] at hafter
        · rcases hinert earlier event later leaf inbox proof rfl hreplays with hdissolved |
            hrevoked | ⟨hrevives, _⟩
          · exact absurd (hlive.symm.trans hdissolved) (by decide)
          · exact hunrevoked hrevoked
          · have hlived := hrevives hretired
            rw [hbefore] at hlived
            cases hlived
      · rw [(htransition.inboxes_of_ne heq).2, hbefore] at hafter
        cases hafter
    · rintro earlier between later start finish leaf rfl hearlier hbetween hneglects hpast
      rw [Option.eq_none_iff_forall_not_mem]
      intro key hkey
      obtain ⟨_, record, hrecord, hage, _⟩ := inboxLive_eq_some.1 hkey
      have hold := hearlier.neglected hfresh.sound hfresh.begun hbetween hneglects
        (by
          rintro done event rest inbox proof rfl hcall accepted haccepted
          exact hrenewed (earlier ++ done) event (rest ++ later) leaf inbox proof (by simp) hcall
            accepted (List.mem_append_left _ haccepted))
        hrecord
      omega

end Nymora.Protocol.Operator.AgoraState

namespace Nymora.Protocol.Operator.AgoraState.Sample

open Nymora.Core
open Nymora.Crypto
open scoped Nymora.Crypto.Reference

def renewal : Call (accepting 2) := .inboxCertificate founder address .Renew ()

def replaying : Event (accepting 2) := playing (accepting 2) start [renewal, retirement] renewal

theorem played_replaying : played (accepting 2) start [renewal, retirement, renewal] =
    [playing (accepting 2) start [] renewal, playing (accepting 2) start [renewal] retirement] ++
      replaying :: [] := rfl

theorem instructions_are_unreplayable_renewed :
    Unreplayable start (played (accepting 2) start [renewal, retirement]) ↔
      ∀ earlier event later leaf inbox proof,
        played (accepting 2) start [renewal, retirement] = earlier ++ event :: later →
          Replays earlier event leaf inbox .Renew proof → Inert earlier event leaf :=
  instructions_are_unreplayable create_start (execution_played [renewal, retirement])

-- The renewal that was accepted before the retirement undoes it.
theorem replayed_renewal_revives :
    ¬ Unreplayable start (played (accepting 2) start [renewal, retirement, renewal]) := by
  intro hunreplayable
  refine hunreplayable.retired _ replaying [] founder played_replaying
    ⟨_, List.mem_cons_of_mem _ (List.mem_singleton_self _), address, (), rfl, by decide +kernel⟩
    founder address .Renew () ⟨rfl, _, List.mem_cons_self, rfl, by decide +kernel⟩
    ⟨by decide +kernel, by decide +kernel⟩

end Nymora.Protocol.Operator.AgoraState.Sample
