import Nymora.Circuits.Stub.Binding
import Nymora.Plonk.System.Theorems
import Nymora.Protocol.Operator.Run.Between

namespace Nymora.Protocol.Operator

open Nymora.Core

-- What a session collects attestations for.
def VouchSession.purpose (opened : VouchSession) : Commitment × PolicyClass :=
  (opened.candidate, opened.target)

namespace AgoraState

open Nymora.Crypto
open Nymora.Circuits
open Nymora.Proofs
open Std (ExtTreeMap ExtTreeSet)

variable {depth : Nat} {system : ProofSystem depth}

-- A recorded attestation, with the session it was recorded in as it stood.
def Records (event : Event system) (session : SessionId) (proof : system.Proof)
    (nullifier : Nullifier) (held : VouchSession) : Prop :=
  event.call = .vouchAttest session proof nullifier ∧ event.outcome = .ok .recorded ∧
    event.before.sessions[session]? = some held

-- An opening under an identifier that still holds attestations, or under which one was recorded
-- in this epoch for another purpose.
def Reuses (earlier : History system) (event : Event system) : Prop :=
  ∃ session candidate target, Opens event session candidate target ∧
    ((∃ opened nullifier, event.before.sessions[session]? = some opened ∧
        nullifier ∈ opened.nullifiers) ∨
      ∃ attesting ∈ earlier, ∃ proof nullifier held,
        Records attesting session proof nullifier held ∧
          attesting.before.epoch = event.before.epoch ∧ held.purpose ≠ (candidate, target))

-- The statement a recorded attestation's proof was checked against.
def Vouched (history : History system) (inputs : ChainPublicInputs) : Prop :=
  ∃ event ∈ history, ∃ session proof nullifier held entry roots,
    Records event session proof nullifier held ∧
      event.before.classes[held.target]? = some entry ∧
      event.before.rootsIn event.before.epoch entry.policy.voucherClass = .ok roots ∧
      inputs = chainPublics event.before.agora event.before.epoch roots
        (.Vouch session.asBytes.toList nullifier)

-- No proof passes for two of the vouches that a history records.
def VouchBound (history : History system) : Prop :=
  ∀ (proof : system.Proof) (inputs other : ChainPublicInputs), Vouched history inputs →
    Vouched history other → system.verify proof inputs = true → system.verify proof other = true →
      inputs.action = other.action

variable [Primitives] {before after start state : AgoraState depth} {history : History system}

-- What ends a session: its finalization, a boundary, or dissolution.
def Ends (event : Event system) (session : SessionId) : Prop :=
  event.call = .vouchFinalize session ∨ Turns event ∨ event.outcome = .ok (.executed .Dissolved)

-- An open session stood before the step, or was opened or counted into by it.
theorem Transition.sessions {call : Call system} {outcome : Outcome}
    (htransition : Transition system before call outcome after) {session : SessionId}
    {opened : VouchSession} (hopened : after.sessions[session]? = some opened) :
    after.epoch = before.epoch ∧
      (before.sessions[session]? = some opened ∨
        Opens ⟨before, call, outcome, after⟩ session opened.candidate opened.target ∧
          opened.nullifiers = ∅ ∨
        ∃ proof nullifier held, Records ⟨before, call, outcome, after⟩ session proof nullifier held ∧
          opened = { held with nullifiers := held.nullifiers.insert nullifier }) := by
  have herased : ∀ {id : SessionId}, (before.sessions.erase id)[session]? = some opened →
      before.sessions[session]? = some opened := by
    intro id herase
    rw [ExtTreeMap.getElem?_erase] at herase
    split at herase
    · cases herase
    · exact herase
  cases htransition with
  | @startVouch candidate target idEntropy =>
      simp only [withSession, ExtTreeMap.getElem?_insert, Std.compare_eq_iff_eq] at hopened
      by_cases heq : Digest.fromBytes idEntropy = session
      · rw [if_pos heq, Option.some_inj] at hopened
        subst heq hopened
        exact ⟨rfl, Or.inr (Or.inl ⟨⟨rfl, idEntropy, rfl⟩, rfl⟩)⟩
      · rw [if_neg heq] at hopened
        exact ⟨rfl, Or.inl hopened⟩
  | @vouchAttest id proof nullifier held _ _ _ hheld =>
      simp only [withSession, ExtTreeMap.getElem?_insert, Std.compare_eq_iff_eq] at hopened
      by_cases heq : id = session
      · rw [if_pos heq, Option.some_inj] at hopened
        subst heq hopened
        exact ⟨rfl, Or.inr (Or.inr ⟨proof, nullifier, held, ⟨rfl, rfl, hheld⟩, rfl⟩)⟩
      · rw [if_neg heq] at hopened
        exact ⟨rfl, Or.inl hopened⟩
  | vouchFinalize => exact ⟨rfl, Or.inl (herased hopened)⟩
  | finalizeClosed => exact ⟨rfl, Or.inl (herased hopened)⟩
  | finalizeConsumed => exact ⟨rfl, Or.inl (herased hopened)⟩
  | finalizeLost => exact ⟨rfl, Or.inl (herased hopened)⟩
  | execute _ heffect =>
      rcases heffect.clears_or_keeps with hcleared | huntouched
      · simp [hcleared.sessions] at hopened
      · rw [huntouched.sessions] at hopened
        exact ⟨huntouched.epoch, Or.inl hopened⟩
  | advanceEpoch _ hboundary => simp [hboundary.sessions] at hopened
  | _ => exact ⟨rfl, Or.inl hopened⟩

-- Every counted nullifier was recorded in this epoch for the purpose of the session that counts it.
def Counted (history : History system) (state : AgoraState depth) : Prop :=
  ∀ (session : SessionId) (opened : VouchSession), state.sessions[session]? = some opened →
    ∀ nullifier ∈ opened.nullifiers, ∃ attesting ∈ history, ∃ proof held,
      Records attesting session proof nullifier held ∧ attesting.before.epoch = state.epoch ∧
        held.purpose = opened.purpose

theorem Transition.counted {call : Call system} {outcome : Outcome}
    (htransition : Transition system before call outcome after)
    (hcounted : Counted history before) :
    Counted (history ++ [⟨before, call, outcome, after⟩]) after := by
  intro session opened hopened nullifier hnullifier
  obtain ⟨hepoch, hfrom⟩ := htransition.sessions hopened
  have hearlier : ∀ stood : VouchSession, before.sessions[session]? = some stood →
      nullifier ∈ stood.nullifiers → stood.purpose = opened.purpose →
        ∃ attesting ∈ history ++ [⟨before, call, outcome, after⟩], ∃ proof held,
          Records attesting session proof nullifier held ∧
            attesting.before.epoch = after.epoch ∧ held.purpose = opened.purpose := by
    intro stood hstood hmem hpurpose
    obtain ⟨attesting, hattesting, proof, held, hrecords, hsame, hheld⟩ :=
      hcounted session stood hstood nullifier hmem
    exact ⟨attesting, List.mem_append_left _ hattesting, proof, held, hrecords,
      hsame.trans hepoch.symm, hheld.trans hpurpose⟩
  rcases hfrom with hstood | ⟨_, hempty⟩ | ⟨proof, latest, held, hrecords, rfl⟩
  · exact hearlier opened hstood hnullifier rfl
  · rw [hempty] at hnullifier
    exact absurd hnullifier ExtTreeSet.not_mem_empty
  · rw [ExtTreeSet.mem_insert, Std.compare_eq_iff_eq] at hnullifier
    rcases hnullifier with rfl | hmem
    · exact ⟨_, List.mem_append_right _ (List.mem_singleton_self _), proof, held, hrecords,
        hepoch.symm, rfl⟩
    · exact hearlier held hrecords.2.2 hmem rfl

-- Whatever was recorded under an open identifier in this epoch was for the purpose it is open for.
def Unmixed (history : History system) (state : AgoraState depth) : Prop :=
  ∀ (session : SessionId) (opened : VouchSession), state.sessions[session]? = some opened →
    ∀ attesting ∈ history, ∀ proof nullifier held, Records attesting session proof nullifier held →
      attesting.before.epoch = state.epoch → held.purpose = opened.purpose

theorem Transition.unmixed {call : Call system} {outcome : Outcome}
    (htransition : Transition system before call outcome after) (hunmixed : Unmixed history before)
    (hfresh : ¬ Reuses history (⟨before, call, outcome, after⟩ : Event system)) :
    Unmixed (history ++ [⟨before, call, outcome, after⟩]) after := by
  intro session opened hopened attesting hattesting proof nullifier held hrecords hsame
  obtain ⟨hepoch, hfrom⟩ := htransition.sessions hopened
  rw [hepoch] at hsame
  rcases List.mem_append.1 hattesting with hearlier | hlast
  · rcases hfrom with hstood | ⟨hopens, _⟩ | ⟨_, _, stood, hcounts, rfl⟩
    · exact hunmixed session opened hstood attesting hearlier proof nullifier held hrecords hsame
    · refine Classical.byContradiction fun hother => hfresh ?_
      exact ⟨session, _, _, hopens, Or.inr ⟨attesting, hearlier, proof, nullifier, held, hrecords,
        hsame, hother⟩⟩
    · exact hunmixed session stood hcounts.2.2 attesting hearlier proof nullifier held hrecords
        hsame
  · obtain rfl := List.mem_singleton.1 hlast
    rcases hfrom with hstood | ⟨⟨_, _, hcall⟩, _⟩ | ⟨_, _, stood, hcounts, rfl⟩
    · rw [Option.some_inj.1 (hrecords.2.2.symm.trans hstood)]
    · have hcontrary := hcall.symm.trans hrecords.1
      cases hcontrary
    · rw [Option.some_inj.1 (hrecords.2.2.symm.trans hcounts.2.2)]
      rfl

-- Short of what ends a session, and of a reused identifier, no attestation is lost.
theorem Transition.attested {call : Call system} {outcome : Outcome}
    (htransition : Transition system before call outcome after) {session : SessionId}
    {opened : VouchSession} {nullifier : Nullifier}
    (hfresh : ¬ Reuses history (⟨before, call, outcome, after⟩ : Event system))
    (hends : ¬ Ends (⟨before, call, outcome, after⟩ : Event system) session)
    (hopened : before.sessions[session]? = some opened)
    (hnullifier : nullifier ∈ opened.nullifiers) :
    ∃ kept, after.sessions[session]? = some kept ∧ kept.purpose = opened.purpose ∧
      nullifier ∈ kept.nullifiers := by
  have hkept : after.sessions[session]? = some opened → ∃ kept : VouchSession,
      after.sessions[session]? = some kept ∧ kept.purpose = opened.purpose ∧
        nullifier ∈ kept.nullifiers := fun hstands => ⟨opened, hstands, rfl, hnullifier⟩
  have herased : ∀ {id : SessionId}, call = .vouchFinalize id →
      (before.sessions.erase id)[session]? = some opened := by
    rintro id rfl
    have hne : id ≠ session := fun heq => hends (Or.inl (heq ▸ rfl))
    simp only [ExtTreeMap.getElem?_erase, Std.compare_eq_iff_eq]
    rw [if_neg hne]
    exact hopened
  cases htransition with
  | @startVouch candidate target idEntropy =>
      refine hkept ?_
      simp only [withSession, ExtTreeMap.getElem?_insert, Std.compare_eq_iff_eq]
      rw [if_neg]
      · exact hopened
      · rintro rfl
        exact hfresh ⟨_, candidate, target, ⟨rfl, idEntropy, rfl⟩,
          Or.inl ⟨opened, nullifier, hopened, hnullifier⟩⟩
  | @vouchAttest id proof latest held _ _ _ hheld =>
      by_cases heq : id = session
      · subst heq
        obtain rfl : held = opened := Option.some_inj.1 (hheld.symm.trans hopened)
        exact ⟨_, ExtTreeMap.getElem?_insert_self, rfl,
          ExtTreeSet.mem_insert.2 (Or.inr hnullifier)⟩
      · refine hkept ?_
        simp only [withSession, ExtTreeMap.getElem?_insert, Std.compare_eq_iff_eq]
        rw [if_neg heq]
        exact hopened
  | vouchFinalize => exact hkept (herased rfl)
  | finalizeClosed => exact hkept (herased rfl)
  | finalizeConsumed => exact hkept (herased rfl)
  | finalizeLost => exact hkept (herased rfl)
  | advanceEpoch => exact absurd (Or.inr (Or.inl ⟨_, Or.inl ⟨rfl, rfl⟩⟩)) hends
  | @execute subject proposal _ _ _ heffect =>
      generalize proposal.decision = decision at heffect
      cases heffect with
      | revocation => exact absurd (Or.inr (Or.inl ⟨_, Or.inr rfl⟩)) hends
      | dissolution => exact absurd (Or.inr (Or.inr rfl)) hends
      | _ => exact hkept hopened
  | _ => exact hkept hopened

-- No opening in the history reuses an identifier.
def Unreused (history : History system) : Prop :=
  ∀ earlier event later, history = earlier ++ event :: later → ¬ Reuses earlier event

omit [Primitives] in
theorem Unreused.of_append {earlier later : History system}
    (hunreused : Unreused (earlier ++ later)) : Unreused earlier := by
  rintro first event rest rfl
  exact hunreused first event (rest ++ later) (by simp)

omit [Primitives] in
theorem Unreused.concat (hunreused : Unreused history) {event : Event system}
    (hfresh : ¬ Reuses history event) : Unreused (history ++ [event]) := by
  intro earlier last later hsplit
  rcases List.eq_nil_or_concat' later with rfl | ⟨rest, final, rfl⟩
  · obtain ⟨rfl, hlast⟩ := List.append_inj' hsplit rfl
    obtain rfl := List.singleton_inj.1 hlast
    exact hfresh
  · rw [← List.cons_append, ← List.append_assoc] at hsplit
    exact hunreused earlier last rest (List.append_inj' hsplit rfl).1

omit [Primitives] in
theorem not_reuses_of_call {event : Event system}
    (hcall : ∀ candidate target idEntropy, event.call ≠ .startVouch candidate target idEntropy) :
    ¬ Reuses history event := by
  rintro ⟨_, candidate, target, ⟨_, idEntropy, hopens⟩, _⟩
  exact hcall candidate target idEntropy hopens

omit [Primitives] in
-- An opening under a closed identifier reuses nothing where it was open for the same purpose.
theorem not_reuses_of_closed {event : Event system} {session : SessionId}
    {candidate : Commitment} {target : PolicyClass} {idEntropy : Bytes 32}
    (hcall : event.call = .startVouch candidate target idEntropy)
    (houtcome : event.outcome = .ok (.session session))
    (hclosed : event.before.sessions[session]? = none)
    (hsame : ∀ attesting ∈ history, ∀ proof nullifier held,
      Records attesting session proof nullifier held → held.purpose = (candidate, target)) :
    ¬ Reuses history event := by
  rintro ⟨other, leaf, policyClass, ⟨hopened, _, hopens⟩, hreused⟩
  rw [houtcome] at hopened
  cases hopened
  rw [hcall] at hopens
  cases hopens
  rcases hreused with ⟨opened, _, hopened, _⟩ | ⟨attesting, hmem, proof, nullifier, held, hrecords,
    _, hother⟩
  · rw [hclosed] at hopened
    cases hopened
  · exact hother (hsame attesting hmem proof nullifier held hrecords)

theorem Execution.counted {founding : Founding}
    (hexecution : Execution system start history state) (hfresh : Fresh founding start) :
    Counted history state :=
  (execution_invariant hexecution hfresh.sound (by simp [Counted, hfresh.sessions])
    fun _ _ _ _ _ _ hcounted htransition => htransition.counted hcounted).2

theorem Execution.unmixed {founding : Founding}
    (hexecution : Execution system start history state) (hfresh : Fresh founding start)
    (hunreused : Unreused history) : Unmixed history state := by
  refine (execution_invariant (motive := fun done current => Unreused done → Unmixed done current)
    hexecution hfresh.sound (by simp [Unmixed, hfresh.sessions]) ?_).2 hunreused
  intro done before after call outcome _ hdone htransition hsteps
  exact htransition.unmixed (hdone hsteps.of_append) (hsteps done _ [] rfl)

-- An acknowledged attestation stays in its session until the session ends.
theorem Execution.attested {earlier between later : History system} {attesting : Event system}
    {session : SessionId} {proof : system.Proof} {nullifier : Nullifier} {held : VouchSession}
    (hbetween : Execution system attesting.after between state) (hsound : attesting.after.Sound)
    (htransition : Transition system attesting.before attesting.call attesting.outcome
      attesting.after)
    (hunreused : Unreused (earlier ++ attesting :: (between ++ later)))
    (hrecords : Records attesting session proof nullifier held)
    (hends : ∀ event ∈ between, ¬ Ends event session) :
    ∃ kept, state.sessions[session]? = some kept ∧ kept.purpose = held.purpose ∧
      nullifier ∈ kept.nullifiers := by
  refine (execution_invariant (motive := fun done current => done <+: between →
    ∃ kept : VouchSession, current.sessions[session]? = some kept ∧ kept.purpose = held.purpose ∧
      nullifier ∈ kept.nullifiers) hbetween hsound ?_ ?_).2 List.prefix_rfl
  · intro _
    obtain ⟨hcall, houtcome, hheld⟩ := hrecords
    rw [hcall, houtcome] at htransition
    generalize attesting.after = recorded at htransition
    cases htransition with
    | @vouchAttest _ _ _ opened _ _ _ hopened =>
        obtain rfl : opened = held := Option.some_inj.1 (hopened.symm.trans hheld)
        exact ⟨_, ExtTreeMap.getElem?_insert_self, rfl, ExtTreeSet.mem_insert_self⟩
  · intro done before after call outcome _ hdone hstep hwithin
    obtain ⟨kept, hkept, hpurpose, hmem⟩ := hdone ((List.prefix_append _ _).trans hwithin)
    obtain ⟨rest, rfl⟩ := hwithin
    have hfresh := hunreused (earlier ++ attesting :: done) ⟨before, call, outcome, after⟩
      (rest ++ later) (by simp)
    obtain ⟨still, hstill, hsame, hheld⟩ := hstep.attested hfresh
      (hends _ (by simp)) hkept hmem
    exact ⟨still, hstill, hsame.trans hpurpose, hheld⟩

-- A proof that is bound to its vouch was accepted under one identifier.
theorem VouchBound.session_eq (hbound : VouchBound history) {first second : Event system}
    {session other : SessionId} {proof : system.Proof} {nullifier otherNullifier : Nullifier}
    {held otherHeld : VouchSession} (hfirst : first ∈ history) (hsecond : second ∈ history)
    (htransition : Transition system first.before first.call first.outcome first.after)
    (hlater : Transition system second.before second.call second.outcome second.after)
    (hrecords : Records first session proof nullifier held)
    (hagain : Records second other proof otherNullifier otherHeld) : session = other := by
  have hchecked : ∀ {event : Event system} {session : SessionId} {nullifier : Nullifier}
      {held : VouchSession}, event ∈ history →
      Transition system event.before event.call event.outcome event.after →
        Records event session proof nullifier held → ∃ inputs : ChainPublicInputs,
          Vouched history inputs ∧ system.verify proof inputs = true ∧
            inputs.action = .Vouch session.asBytes.toList nullifier := by
    intro event session nullifier held hmem htransition hrecords
    have hevent := hrecords
    rw [hrecords.1, hrecords.2.1] at htransition
    generalize event.after = recorded at htransition
    cases htransition with
    | @vouchAttest _ _ _ opened entry roots _ hopened hentry hroots hproof =>
        obtain rfl : opened = held := Option.some_inj.1 (hopened.symm.trans hevent.2.2)
        exact ⟨_, ⟨event, hmem, session, proof, nullifier, opened, entry, roots, hevent, hentry,
          hroots, rfl⟩, hproof, rfl⟩
  obtain ⟨inputs, hvouched, haccepted, haction⟩ := hchecked hfirst htransition hrecords
  obtain ⟨others, hrevouched, hreaccepted, hreaction⟩ := hchecked hsecond hlater hagain
  have hsame := hbound proof inputs others hvouched hrevouched haccepted hreaccepted
  rw [haction, hreaction] at hsame
  obtain ⟨hbytes, _⟩ := Action.Vouch.inj hsame
  exact congrArg Digest.fromBytes (Bytes.ext hbytes)

-- The stub's proofs are bound so where its binding does not collide on the recorded vouches.
theorem vouchBound_stub {history : History (StubProver depth)}
    (hfree : ∀ inputs other, Vouched history inputs → Vouched history other →
      ByteHasher.CollisionFree [(chainParts inputs).flatMap framed,
        (chainParts other).flatMap framed]) : VouchBound history := by
  have haddressable : ∀ {inputs}, Vouched history inputs → Addressable (chainParts inputs) := by
    rintro inputs ⟨event, _, session, _, nullifier, _, _, roots, _, _, _, rfl⟩
    intro part hpart
    simp only [chainParts, Action.bindingParts, chainPublics, List.cons_append, List.nil_append,
      List.mem_cons, List.not_mem_nil, or_false] at hpart
    rcases hpart with rfl | rfl | rfl | rfl | rfl | rfl | rfl | rfl | rfl
    · decide
    · simp
    · simp [Epoch.toLeBytes]
    all_goals simp
  intro proof inputs other hinputs hother haccepted hreaccepted
  have hbinding : chainBinding inputs = chainBinding other := by
    obtain ⟨hfirst, _⟩ := Bool.and_eq_true_iff.1 haccepted
    obtain ⟨hsecond, _⟩ := Bool.and_eq_true_iff.1 hreaccepted
    exact (of_decide_eq_true hfirst).symm.trans (of_decide_eq_true hsecond)
  have hparts := parts_eq_of_binding (haddressable hinputs) (haddressable hother)
    (hfree inputs other hinputs hother) hbinding
  rw [chainParts_inj hparts]

-- The real backend's are where no two recorded identifiers hash to twins.
theorem vouchBound_backend {backend : Plonk.Backend depth} (hbinds : backend.Binds)
    {history : History backend.proofSystem}
    (hapart : ∀ (session other : SessionId) inputs others nullifier otherNullifier,
      Vouched history inputs → Vouched history others →
        inputs.action = .Vouch session.asBytes.toList nullifier →
          others.action = .Vouch other.asBytes.toList otherNullifier →
            Plonk.Twins (Plonk.contextDigest session.asBytes.toList)
              (Plonk.contextDigest other.asBytes.toList) → session = other) :
    VouchBound history := by
  intro proof inputs others hinputs hothers haccepted hreaccepted
  have hconverts : ∀ {inputs : ChainPublicInputs},
      backend.proofSystem.verify proof inputs = true →
        ∃ inst, Plonk.chainInstance inputs = some inst ∧
          backend.chain.verify inst proof = true := by
    intro inputs hverify
    change Plonk.verifyConverted backend.chain (Plonk.chainInstance inputs) proof = true at hverify
    cases hinst : Plonk.chainInstance inputs with
    | none =>
        rw [hinst] at hverify
        cases hverify
    | some inst =>
        rw [hinst] at hverify
        exact ⟨inst, rfl, hverify⟩
  obtain ⟨inst, hinst, hverify⟩ := hconverts haccepted
  obtain ⟨other, hother, hreverify⟩ := hconverts hreaccepted
  have hsame : Plonk.chainInstance inputs = Plonk.chainInstance others := by
    rw [hinst, hother, hbinds.chain inst other proof hverify hreverify]
  have htwins := (Plonk.chainInstance_eq_iff (by rw [hinst]; rfl)).1 hsame
  have hvouch : ∀ {inputs : ChainPublicInputs}, Vouched history inputs →
      ∃ (session : SessionId) (nullifier : Nullifier),
        inputs.action = .Vouch session.asBytes.toList nullifier := by
    rintro inputs ⟨_, _, session, _, nullifier, _, _, _, _, _, _, rfl⟩
    exact ⟨session, nullifier, rfl⟩
  obtain ⟨session, nullifier, haction⟩ := hvouch hinputs
  obtain ⟨otherSession, otherNullifier, hreaction⟩ := hvouch hothers
  have hcontext := htwins.action.context
  have houtput := htwins.action.output
  rw [haction, hreaction] at hcontext houtput ⊢
  rw [hapart session otherSession inputs others nullifier otherNullifier hinputs hothers haction
    hreaction hcontext, Digest.asBytes_inj.1 (Option.some.inj houtput)]

-- In every run over any proof system that reuses no identifier, an attestation counts for its own
-- candidate and class alone, its proof is not accepted toward another candidate in the epoch where
-- proofs are bound to the recorded vouches, and nothing but the end of its session takes it away.
theorem attestations_are_kept {founding : Founding} {tagSecret statementEntropy : Bytes 32}
    {logSeed : Option (Bytes 32)} {created : AgoraState depth}
    (hcreate : create founding tagSecret statementEntropy logSeed = .ok created)
    (hexecution : Execution system created history state) (hunreused : Unreused history) :
    (∀ earlier closing later session admission, history = earlier ++ closing :: later →
      closing.call = .vouchFinalize session → closing.outcome = .ok (.admission admission) →
        ∃ opened entry, closing.before.sessions[session]? = some opened ∧
          closing.before.classes[opened.target]? = some entry ∧
          entry.policy.admissionThreshold.toNat ≤ opened.nullifiers.size ∧
          closing.after.staged.admissions =
            closing.before.staged.admissions ++ [(opened.target, opened.candidate)] ∧
          (∀ nullifier ∈ opened.nullifiers, ∃ attesting ∈ earlier, ∃ proof held,
            Records attesting session proof nullifier held ∧
              attesting.before.epoch = closing.before.epoch ∧ held.purpose = opened.purpose) ∧
          ∀ attesting ∈ earlier, ∀ proof nullifier held,
            Records attesting session proof nullifier held →
              attesting.before.epoch = closing.before.epoch → held.purpose = opened.purpose) ∧
    (VouchBound history → ∀ earlier attesting later session proof nullifier held,
      history = earlier ++ attesting :: later → Records attesting session proof nullifier held →
        ∀ accepted ∈ earlier, ∀ other otherNullifier otherHeld,
          Records accepted other proof otherNullifier otherHeld →
            accepted.before.epoch = attesting.before.epoch →
              otherHeld.candidate = held.candidate) ∧
    ∀ earlier attesting between later session proof nullifier held reached,
      history = earlier ++ attesting :: (between ++ later) →
        Records attesting session proof nullifier held →
          (∀ event ∈ between, ¬ Ends event session) →
            Execution system attesting.after between reached →
              ∃ kept, reached.sessions[session]? = some kept ∧ kept.purpose = held.purpose ∧
                nullifier ∈ kept.nullifiers := by
  have hfresh := fresh_of_create hcreate
  refine ⟨?_, ?_, ?_⟩
  · rintro earlier closing later session admission rfl hcall houtcome
    obtain ⟨hearlier, _, htransition, _, _⟩ := hexecution.at_event hfresh.sound
    have hcounted := hearlier.counted hfresh
    have hunmixed := hearlier.unmixed hfresh hunreused.of_append
    rw [hcall, houtcome] at htransition
    generalize closing.after = closed at htransition
    cases htransition with
    | @vouchFinalize _ opened entry _ _ hopened hmet hstageable =>
        exact ⟨opened, entry, hopened, hstageable.configured, hmet, rfl,
          hcounted session opened hopened, hunmixed session opened hopened⟩
  · rintro hbound earlier attesting later session proof nullifier held rfl hrecords accepted
      haccepted other otherNullifier otherHeld hagain hepoch
    obtain ⟨hearlier, _, htransition, _, _⟩ := hexecution.at_event hfresh.sound
    have hunmixed := hearlier.unmixed hfresh hunreused.of_append
    have hstep : Transition system accepted.before accepted.call accepted.outcome
        accepted.after := by
      obtain ⟨first, second, rfl⟩ := List.append_of_mem haccepted
      exact (hearlier.at_event hfresh.sound).2.2.1
    obtain rfl := hbound.session_eq (List.mem_append_left _ haccepted) (by simp) hstep htransition
      hagain hrecords
    have hsame := hunmixed other held hrecords.2.2 accepted haccepted proof otherNullifier
      otherHeld hagain hepoch
    exact congrArg Prod.fst hsame
  · rintro earlier attesting between later session proof nullifier held reached rfl hrecords hends
      hbetween
    obtain ⟨_, _, htransition, hafter, _⟩ := hexecution.at_event hfresh.sound
    exact hbetween.attested hafter htransition hunreused hrecords hends

end AgoraState

end Nymora.Protocol.Operator

namespace Nymora.Protocol.Operator.AgoraState.Sample

open Nymora.Core
open Nymora.Crypto
open Nymora.Circuits
open scoped Nymora.Crypto.Reference

-- The system whose chain proofs each state one action, and prove nothing else.
def stating (depth : Nat) : ProofSystem depth where
  Proof := Action
  MigrationProof := Unit
  InboxProof := Unit
  prove _ inputs := .ok inputs.action
  verify proof inputs := decide (inputs.action = proof)
  proveMigration _ _ := .ok ()
  verifyMigration _ _ := true
  proveInbox _ _ := .ok ()
  verifyInbox _ _ := true

def statement : Action := .Vouch session.asBytes.toList nullifier

def otherCandidate : Commitment := .fromBytes (Bytes.replicate 32 11)

-- One session for a candidate, and an attestation.
def attested : List (Call (stating 2)) :=
  [.credentialsInit candidate address, .credentialsInit otherCandidate otherAddress,
    .startVouch candidate members entropy, .vouchAttest session statement nullifier]

-- A session for someone else under the same identifier.
def colliding : List (Call (stating 2)) := attested ++ [.startVouch otherCandidate members entropy]

def attesting : Event (stating 2) :=
  playing (stating 2) start (attested.take 3) (.vouchAttest session statement nullifier)

def mixing : Event (stating 2) :=
  playing (stating 2) start colliding (.vouchAttest session statement nullifier)

theorem records_attesting :
    ∃ held, Records attesting session statement nullifier held ∧ held.candidate = candidate := by
  obtain ⟨held, hheld, hcandidate⟩ := Option.map_eq_some_iff.1 (show
    attesting.before.sessions[session]?.map VouchSession.candidate = some candidate by
      decide +kernel)
  exact ⟨held, ⟨rfl, by decide +kernel, hheld⟩, hcandidate⟩

-- A session for the guests is attested in and finalized; the candidate announces itself again, and
-- a second session under the same identifier records the same proof.
def sponsored : List (Call (stating 2)) :=
  [.credentialsInit candidate address, .startVouch candidate guests entropy,
    .vouchAttest session statement nullifier, .credentialsInit otherCandidate otherAddress]

def reopened : List (Call (stating 2)) := sponsored ++
  [.vouchFinalize session, .credentialsInit candidate address, .startVouch candidate guests entropy]

def recording : Event (stating 2) :=
  playing (stating 2) start (sponsored.take 2) (.vouchAttest session statement nullifier)

def announcing : Event (stating 2) := playing (stating 2) start (sponsored.take 3)
  (.credentialsInit otherCandidate otherAddress)

def admitted : List (Call (stating 2)) := sponsored ++ [.vouchFinalize session]

def rerecording : Event (stating 2) :=
  playing (stating 2) start reopened (.vouchAttest session statement nullifier)

theorem sessions_sponsored :
    recording.before.sessions[session]?.map VouchSession.purpose = some (candidate, guests) ∧
    recording.outcome = .ok .recorded ∧
    rerecording.before.sessions[session]?.map VouchSession.purpose = some (candidate, guests) ∧
    rerecording.outcome = .ok .recorded ∧
    recording.before.epoch = rerecording.before.epoch ∧ announcing.outcome = .ok .recorded ∧
    (playing (stating 2) start (sponsored.take 1)
      (.startVouch candidate guests entropy)).outcome = .ok (.session session) ∧
    (reached (stating 2) start (sponsored.take 1)).sessions[session]? = none ∧
    (playing (stating 2) start (reopened.take 6)
      (.startVouch candidate guests entropy)).outcome = .ok (.session session) ∧
    (reached (stating 2) start (reopened.take 6)).sessions[session]? = none ∧
    (playing (stating 2) start sponsored (.vouchFinalize session)).outcome =
      .ok (.admission ⟨.new 1, 0⟩) := by
  decide +kernel

theorem records_sponsored {event : Event (stating 2)}
    (hcall : event.call = .vouchAttest session statement nullifier)
    (houtcome : event.outcome = .ok .recorded)
    (hpurpose : event.before.sessions[session]?.map VouchSession.purpose =
      some (candidate, guests)) :
    ∃ held, Records event session statement nullifier held ∧
      held.purpose = (candidate, guests) := by
  obtain ⟨held, hheld, hsame⟩ := Option.map_eq_some_iff.1 hpurpose
  exact ⟨held, ⟨hcall, houtcome, hheld⟩, hsame⟩

theorem unreused_step {calls : List (Call (stating 2))}
    (hunreused : Unreused (played (stating 2) start calls)) (call : Call (stating 2))
    (hfresh : ¬ Reuses (played (stating 2) start calls) (playing (stating 2) start calls call)) :
    Unreused (played (stating 2) start (calls ++ [call])) := by
  have hplayed : played (stating 2) start (calls ++ [call]) =
      played (stating 2) start calls ++ [playing (stating 2) start calls call] :=
    Runs.events_concat _ _ _ _
  rw [hplayed]
  exact hunreused.concat hfresh

-- Up to the second opening there is one attestation.
theorem attests_once {event : Event (stating 2)}
    (hevent : event ∈ played (stating 2) start (reopened.take 6))
    (hattests : ∃ id proof latest, event.call = .vouchAttest id proof latest) :
    recording.before = event.before := by
  have hplayed : played (stating 2) start (reopened.take 6) =
      [playing (stating 2) start [] (.credentialsInit candidate address),
        playing (stating 2) start (reopened.take 1) (.startVouch candidate guests entropy),
        recording,
        playing (stating 2) start (reopened.take 3)
          (.credentialsInit otherCandidate otherAddress),
        playing (stating 2) start (reopened.take 4) (.vouchFinalize session),
        playing (stating 2) start (reopened.take 5) (.credentialsInit candidate address)] := rfl
  obtain ⟨id, proof, latest, hcall⟩ := hattests
  rw [hplayed] at hevent
  simp only [List.mem_cons, List.not_mem_nil, or_false] at hevent
  rcases hevent with hevent | hevent | hevent | hevent | hevent | hevent
  · rw [hevent] at hcall
    cases hcall
  · rw [hevent] at hcall
    cases hcall
  · rw [hevent]
  · rw [hevent] at hcall
    cases hcall
  · rw [hevent] at hcall
    cases hcall
  · rw [hevent] at hcall
    cases hcall

-- The second opening finds the identifier closed, and used for its own purpose only.
theorem unreused_sponsored :
    Unreused (played (stating 2) start
      (reopened ++ [.vouchAttest session statement nullifier])) := by
  obtain ⟨hpurpose, _, _, _, _, _, hopened, hclosed, hreopened, hreclosed, _⟩ :=
    sessions_sponsored
  have hnil : Unreused (played (stating 2) start []) := by
    intro earlier event later hplayed
    simp [played] at hplayed
  have hannounced := unreused_step hnil (.credentialsInit candidate address)
    (not_reuses_of_call (by simp [playing, Runs.event]))
  have hfirst := unreused_step hannounced (.startVouch candidate guests entropy)
    (not_reuses_of_closed rfl hopened hclosed (by
      intro attesting hmem proof latest held hrecords
      have hcall := call_of_mem_played hmem
      rw [hrecords.1] at hcall
      simp at hcall))
  have hrecorded := unreused_step hfirst (.vouchAttest session statement nullifier)
    (not_reuses_of_call (by simp [playing, Runs.event]))
  have hother := unreused_step hrecorded (.credentialsInit otherCandidate otherAddress)
    (not_reuses_of_call (by simp [playing, Runs.event]))
  have hclosing := unreused_step hother (.vouchFinalize session)
    (not_reuses_of_call (by simp [playing, Runs.event]))
  have hagain := unreused_step hclosing (.credentialsInit candidate address)
    (not_reuses_of_call (by simp [playing, Runs.event]))
  have hsecond := unreused_step hagain (.startVouch candidate guests entropy)
    (not_reuses_of_closed rfl hreopened hreclosed (by
      intro attesting hmem proof latest held hrecords
      have hbefore := attests_once hmem ⟨_, _, _, hrecords.1⟩
      rw [hbefore, hrecords.2.2] at hpurpose
      exact Option.some.inj hpurpose))
  exact unreused_step hsecond (.vouchAttest session statement nullifier)
    (not_reuses_of_call (by simp [playing, Runs.event]))

theorem vouchBound_stating (history : History (stating 2)) : VouchBound history := by
  intro (proof : Action) inputs other _ _ haccepted hreaccepted
  change decide (inputs.action = proof) = true at haccepted
  change decide (other.action = proof) = true at hreaccepted
  exact (of_decide_eq_true haccepted).trans (of_decide_eq_true hreaccepted).symm

-- The proof counts twice, both times for its own candidate; what it was counted in is finalized
-- with it, and the announcement in between takes nothing away.
theorem attestations_are_kept_attested :
    ∃ held again, Records recording session statement nullifier held ∧
      Records rerecording session statement nullifier again ∧
      recording.before.epoch = rerecording.before.epoch ∧ held.candidate = again.candidate ∧
      (∃ opened, (reached (stating 2) start sponsored).sessions[session]? = some opened ∧
        opened.purpose = (candidate, guests) ∧ nullifier ∈ opened.nullifiers ∧
        (playing (stating 2) start sponsored (.vouchFinalize session)).after.staged.admissions =
          (reached (stating 2) start sponsored).staged.admissions ++ [(guests, candidate)]) := by
  obtain ⟨hpurpose, hrecorded, hagain, hrerecorded, hepoch, hannounced, _, _, _, _, hadmitted⟩ :=
    sessions_sponsored
  obtain ⟨held, hheld, hsame⟩ := records_sponsored rfl hrecorded hpurpose
  obtain ⟨again, hrecords, hresame⟩ := records_sponsored rfl hrerecorded hagain
  have hrun := @execution_played _ _ (stating 2) start
    (reopened ++ [.vouchAttest session statement nullifier])
  obtain ⟨hcounts, hbinds, hkeeps⟩ :=
    attestations_are_kept create_start hrun unreused_sponsored
  -- The one run, split at its last attestation, at its first and at the finalization.
  have hlast : played (stating 2) start (reopened ++ [.vouchAttest session statement nullifier]) =
      played (stating 2) start reopened ++ rerecording :: [] := rfl
  have hmem : recording ∈ played (stating 2) start reopened := by
    have hreopened : played (stating 2) start reopened =
        played (stating 2) start (sponsored.take 2) ++ recording ::
          played (stating 2) recording.after (reopened.drop 3) := rfl
    rw [hreopened]
    exact List.mem_append_right _ List.mem_cons_self
  have hfirst : played (stating 2) start (reopened ++ [.vouchAttest session statement nullifier]) =
      played (stating 2) start (sponsored.take 2) ++ recording ::
        ([announcing] ++ played (stating 2) (reached (stating 2) start sponsored)
          (reopened.drop 4 ++ [.vouchAttest session statement nullifier])) := rfl
  have hclosing : played (stating 2) start
      (reopened ++ [.vouchAttest session statement nullifier]) =
        played (stating 2) start sponsored ++
          playing (stating 2) start sponsored (.vouchFinalize session) ::
            played (stating 2) (reached (stating 2) start admitted)
              (reopened.drop 5 ++ [.vouchAttest session statement nullifier]) := rfl
  have hcandidate := hbinds (vouchBound_stating _) _ _ _ _ _ _ _ hlast hrecords recording hmem _ _ _
    hheld hepoch
  have hstands : ∀ event ∈ [announcing], ¬ Ends event session := by
    intro event hevent hends
    rw [List.mem_singleton.1 hevent] at hends
    rcases hends with hcall | ⟨_, ⟨hcall, _⟩ | houtcome⟩ | houtcome
    · cases hcall
    · cases hcall
    · rw [hannounced] at houtcome
      cases houtcome
    · rw [hannounced] at houtcome
      cases houtcome
  obtain ⟨kept, hkept, hpurposes, hnullifier⟩ := hkeeps _ _ _ _ _ _ _ _ _ hfirst hheld hstands
    (execution_played [.credentialsInit otherCandidate otherAddress])
  obtain ⟨opened, entry, hopened, _, _, hstaged, _⟩ :=
    hcounts _ _ _ _ _ hclosing rfl hadmitted
  obtain rfl : kept = opened := Option.some_inj.1 (hkept.symm.trans hopened)
  have hpurposes := hpurposes.trans hsame
  have hleaf : kept.candidate = candidate := congrArg Prod.fst hpurposes
  have hclass : kept.target = guests := congrArg Prod.snd hpurposes
  rw [hleaf, hclass] at hstaged
  exact ⟨held, again, hheld, hrecords, hepoch, hcandidate, kept, hkept, hpurposes, hnullifier,
    hstaged⟩

theorem collision_moves_attestations :
    played (stating 2) start (colliding ++ [.vouchAttest session statement nullifier]) =
        played (stating 2) start (attested.take 3) ++ attesting ::
          ([playing (stating 2) start attested (.startVouch otherCandidate members entropy)] ++
            mixing :: []) ∧
      attesting.before.epoch = mixing.before.epoch ∧ candidate ≠ otherCandidate ∧
      (∃ held, Records attesting session statement nullifier held ∧ held.candidate = candidate) ∧
      (reached (stating 2) start attested).sessions[session]?.map
        (fun opened => (opened.candidate, opened.nullifiers.toList)) =
          some (candidate, [nullifier]) ∧
      (reached (stating 2) start colliding).sessions[session]?.map
        (fun opened => (opened.candidate, opened.nullifiers.toList)) = some (otherCandidate, []) ∧
      ∃ held, Records mixing session statement nullifier held ∧
        held.candidate = otherCandidate := by
  refine ⟨rfl, by decide +kernel, by decide +kernel, records_attesting, by decide +kernel,
    by decide +kernel, ?_⟩
  obtain ⟨held, hheld, hcandidate⟩ := Option.map_eq_some_iff.1 (show
    mixing.before.sessions[session]?.map VouchSession.candidate = some otherCandidate by
      decide +kernel)
  exact ⟨held, ⟨rfl, by decide +kernel, hheld⟩, hcandidate⟩

end Nymora.Protocol.Operator.AgoraState.Sample
