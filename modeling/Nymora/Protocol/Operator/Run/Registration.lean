import Nymora.Protocol.Operator.Run.Between

namespace Nymora.Protocol.Operator.AgoraState

open Nymora.Core
open Nymora.Crypto
open Nymora.Circuits
open Nymora.Proofs
open Std (ExtTreeMap ExtTreeSet)

variable {depth : Nat} {system : ProofSystem depth}

-- An accepted renewal of a leaf's registration under a key.
def Renews (event : Event system) (leaf : Commitment) (key : InboxPublicKey) : Prop :=
  (∃ proof, event.call = .inboxCertificate leaf key .Renew proof) ∧ event.outcome = .ok .recorded

-- Whatever is staged for a landed leaf that lands again is what it is registered under.
def Faithful (state : AgoraState depth) : Prop :=
  ∀ leaf ∈ state.staged.admissions.map Prod.snd, Landed state leaf →
    ∀ key, state.stagedInboxes[leaf]? = some key →
      state.inboxes[leaf]?.map InboxRecord.key = some key

variable [Primitives] {before after start state : AgoraState depth} {history : History system}

-- Landed leaves stay landed.
theorem Course.landed (hcourse : Course before after) {leaf : Commitment}
    (hlanded : Landed before leaf) : Landed after leaf := by
  have hready : ∀ {ready : AgoraState depth}, Ready before ready → Landed ready leaf := by
    intro ready hready
    unfold Landed
    rw [hready.quiet.classes]
    exact hlanded
  cases hcourse with
  | quiet hquiet =>
      unfold Landed
      rw [hquiet.classes]
      exact hlanded
  | @policy ready changed entry _ _ hwithin hentry =>
      obtain ⟨policyClass, stood, hstood, hleaf⟩ := hready hwithin
      by_cases heq : changed = policyClass
      · subst heq
        obtain rfl : entry = stood := Option.some_inj.1 (hentry.symm.trans hstood)
        exact ⟨changed, _, ExtTreeMap.getElem?_insert_self, hleaf⟩
      · refine ⟨policyClass, stood, ?_, hleaf⟩
        simp only [withPolicy, ExtTreeMap.getElem?_insert, Std.compare_eq_iff_eq]
        rw [if_neg heq]
        exact hstood
  | dissolution hwithin =>
      have hstood := hready hwithin
      exact hstood
  | inboxHorizon hwithin =>
      have hstood := hready hwithin
      exact hstood
  | boundary _ hwithin hboundary =>
      obtain ⟨policyClass, stood, hstood, hleaf⟩ := hready hwithin
      obtain ⟨landed, hlanded, hlands⟩ := hboundary.lands policyClass stood hstood
      exact ⟨policyClass, landed, hlanded, hlands.mem_positions.2 (Or.inl hleaf)⟩

theorem Execution.landed (hexecution : Execution system start history state)
    (hsound : start.Sound) {leaf : Commitment} (hlanded : Landed start leaf) :
    Landed state leaf :=
  hexecution.preserves hsound hlanded fun _ _ _ hcourse hstood => hcourse.landed hstood

-- A registration was there before the step, or the step renewed it, or it landed.
theorem Transition.inboxes {call : Call system} {outcome : Outcome}
    (htransition : Transition system before call outcome after) {leaf : Commitment}
    {record : InboxRecord} (hrecord : after.inboxes[leaf]? = some record) :
    before.inboxes[leaf]? = some record ∨
      (Renews ⟨before, call, outcome, after⟩ leaf record.key ∧ record.since = before.epoch) ∨
      Turns (⟨before, call, outcome, after⟩ : Event system) ∧
        leaf ∈ before.staged.admissions.map Prod.snd ∧
        before.stagedInboxes[leaf]? = some record.key ∧ record.since = after.epoch := by
  by_cases hturns : Turns (⟨before, call, outcome, after⟩ : Event system)
  · obtain ⟨_, ready, next, hready, hboundary⟩ := htransition.boundary_of_turns hturns
    rw [hboundary.inboxes, hready.admissions, hready.stagedInboxes, hready.inboxes] at hrecord
    by_cases hleaf : leaf ∈ before.staged.admissions.map Prod.snd
    · rw [if_pos hleaf] at hrecord
      cases hstaged : before.stagedInboxes[leaf]? with
      | none =>
          rw [hstaged] at hrecord
          exact Or.inl hrecord
      | some key =>
          rw [hstaged, Option.map_some, Option.some_or, Option.some_inj] at hrecord
          rw [← hrecord]
          exact Or.inr (Or.inr ⟨hturns, hleaf, rfl, hboundary.epoch.symm⟩)
    · rw [if_neg hleaf] at hrecord
      exact Or.inl hrecord
  · cases htransition with
    | @retire retired inbox proof _ _ _ _ _ =>
        simp only [ExtTreeMap.getElem?_erase, Std.compare_eq_iff_eq] at hrecord
        by_cases heq : retired = leaf
        · rw [if_pos heq] at hrecord
          cases hrecord
        · rw [if_neg heq] at hrecord
          exact Or.inl hrecord
    | @renew renewed inbox proof _ _ _ _ =>
        simp only [ExtTreeMap.getElem?_insert, Std.compare_eq_iff_eq] at hrecord
        by_cases heq : renewed = leaf
        · rw [if_pos heq, Option.some_inj] at hrecord
          subst heq hrecord
          exact Or.inr (Or.inl ⟨⟨⟨proof, rfl⟩, rfl⟩, rfl⟩)
        · rw [if_neg heq] at hrecord
          exact Or.inl hrecord
    | advanceEpoch => exact absurd ⟨_, Or.inl ⟨rfl, rfl⟩⟩ hturns
    | @execute subject proposal _ _ _ heffect =>
        generalize proposal.decision = decision at heffect
        cases heffect with
        | revocation => exact absurd ⟨_, Or.inr rfl⟩ hturns
        | _ => exact Or.inl hrecord
    | _ => exact Or.inl hrecord

-- Across a faithful stretch a landed leaf's key changes only by a renewal for that key.
theorem Execution.certifies {between : History system}
    (hbetween : Execution system start between state) (hsound : start.Sound)
    (hfaithful : ∀ event ∈ between, Turns event → Faithful event.before) {leaf : Commitment}
    (hlanded : Landed start leaf) {record : InboxRecord}
    (hrecord : state.inboxes[leaf]? = some record) :
    start.inboxes[leaf]?.map InboxRecord.key = some record.key ∨
      ∃ event ∈ between, Renews event leaf record.key := by
  obtain ⟨_, hreached⟩ := execution_invariant (motive := fun done current =>
    (∀ event ∈ done, Turns event → Faithful event.before) → Landed current leaf ∧
      ∀ record, current.inboxes[leaf]? = some record →
        start.inboxes[leaf]?.map InboxRecord.key = some record.key ∨
          ∃ event ∈ done, Renews event leaf record.key) hbetween hsound
    (fun _ => ⟨hlanded, fun record hstart => Or.inl (by rw [hstart]; rfl)⟩) (by
      intro done before after call outcome _ hdone htransition hsteps
      obtain ⟨hstands, hkeys⟩ := hdone fun event hevent =>
        hsteps event (List.mem_append_left _ hevent)
      refine ⟨htransition.course.landed hstands, ?_⟩
      intro record hafter
      have hearlier : ∀ earlier, before.inboxes[leaf]? = some earlier → earlier.key = record.key →
          start.inboxes[leaf]?.map InboxRecord.key = some record.key ∨
            ∃ event ∈ done ++ [⟨before, call, outcome, after⟩], Renews event leaf record.key := by
        intro earlier hbefore hkey
        rw [← hkey]
        rcases hkeys earlier hbefore with hstart | ⟨event, hevent, hrenews⟩
        · exact Or.inl hstart
        · exact Or.inr ⟨event, List.mem_append_left _ hevent, hrenews⟩
      rcases htransition.inboxes hafter with hbefore | ⟨hrenews, _⟩ | ⟨hturns, hleaf, hstaged, _⟩
      · exact hearlier record hbefore rfl
      · exact Or.inr ⟨_, List.mem_append_right _ (List.mem_singleton_self _), hrenews⟩
      · have hfaithful := hsteps _ (List.mem_append_right _ (List.mem_singleton_self _)) hturns
        obtain ⟨earlier, hbefore, hkey⟩ :=
          Option.map_eq_some_iff.1 (hfaithful leaf hleaf hstands record.key hstaged)
        exact hearlier earlier hbefore hkey)
  exact (hreached hfaithful).2 record hrecord

-- In every run over any proof system, the key of a landed leaf changes by accepted renewals
-- alone exactly where no boundary lands such a leaf again with another key staged for it.
theorem inbox_key_is_certified {founding : Founding} {tagSecret statementEntropy : Bytes 32}
    {logSeed : Option (Bytes 32)} {created : AgoraState depth}
    (hcreate : create founding tagSecret statementEntropy logSeed = .ok created)
    (hexecution : Execution system created history state) :
    (∀ (earlier between later : History system) (start finish : AgoraState depth),
      history = earlier ++ (between ++ later) → Execution system created earlier start →
        Execution system start between finish → ∀ leaf, Landed start leaf →
          ∀ record, finish.inboxes[leaf]? = some record →
            start.inboxes[leaf]?.map InboxRecord.key = some record.key ∨
              ∃ event ∈ between, Renews event leaf record.key) ↔
    ∀ event ∈ history, Turns event → Faithful event.before := by
  have hsound := (fresh_of_create hcreate).sound
  constructor
  · intro hcertified event hevent hturns leaf hleaf hlanded key hstaged
    obtain ⟨earlier, later, rfl⟩ := List.append_of_mem hevent
    obtain ⟨hearlier, hbefore, htransition, _, _⟩ := hexecution.at_event hsound
    obtain ⟨_, ready, next, hready, hboundary⟩ := htransition.boundary_of_turns hturns
    have hone := hexecution.single
    have hafter : event.after.inboxes[leaf]? = some ⟨key, next⟩ := by
      rw [hboundary.inboxes, hready.admissions, if_pos hleaf, hready.stagedInboxes, hstaged]
      rfl
    rcases hcertified earlier [event] later event.before event.after rfl hearlier hone leaf hlanded
      ⟨key, next⟩ hafter with hkept | ⟨other, hother, ⟨_, hcall⟩, houtcome⟩
    · exact hkept
    · rw [List.mem_singleton.1 hother] at hcall houtcome
      obtain ⟨_, ⟨hadvance, _⟩ | hexecuted⟩ := hturns
      · rw [hadvance] at hcall
        cases hcall
      · rw [hexecuted] at houtcome
        cases houtcome
  · rintro hfaithful earlier between later start finish rfl hearlier hbetween leaf hlanded record
      hrecord
    exact hbetween.certifies (hearlier.sound hsound) (fun event hevent => hfaithful event
      (List.mem_append_right _ (List.mem_append_left _ hevent))) hlanded hrecord

end Nymora.Protocol.Operator.AgoraState

namespace Nymora.Protocol.Operator.AgoraState.Sample

open Nymora.Core
open Nymora.Crypto
open scoped Nymora.Crypto.Reference

-- Someone names the founder's leaf with an address of its own, and the leaf lands again.
def redirection : List (Call (accepting 2)) :=
  [.credentialsInit founder otherAddress, .startVouch founder guests entropy,
    .vouchAttest session () nullifier, .vouchFinalize session, .advanceEpoch]

def redirected : AgoraState 2 := reached (accepting 2) start redirection

theorem start_members : start.classes[members]?.isSome := by decide +kernel

theorem founder_landed : Landed start founder :=
  ⟨members, _, (Option.some_get start_members).symm, by decide +kernel⟩

theorem unrenewed_redirection {event : Event (accepting 2)}
    (hevent : event ∈ played (accepting 2) start redirection) (leaf : Commitment)
    (key : InboxPublicKey) : ¬ Renews event leaf key := by
  rintro ⟨⟨proof, hcall⟩, _⟩
  have hmem := call_of_mem_played hevent
  rw [hcall] at hmem
  simp [redirection] at hmem

theorem redirected_record : redirected.inboxes[founder]? = some ⟨otherAddress, ⟨1, by decide⟩⟩ := by
  decide +kernel

theorem inbox_key_is_certified_redirected :
    ¬ ∀ event ∈ played (accepting 2) start redirection, Turns event → Faithful event.before := by
  intro hfaithful
  have hcertified := (inbox_key_is_certified create_start (execution_played redirection)).2
    hfaithful [] _ [] start redirected rfl (execution_played []) (execution_played redirection)
    founder founder_landed _ redirected_record
  rcases hcertified with hkept | ⟨event, hevent, hrenews⟩
  · exact absurd hkept (by decide +kernel)
  · exact unrenewed_redirection hevent _ _ hrenews

theorem repeated_init_redirects : Landed start founder ∧
    start.inboxes[founder]?.map InboxRecord.key = some address ∧ address ≠ otherAddress ∧
    redirected.inboxes[founder]?.map InboxRecord.key = some otherAddress ∧
    ∀ event ∈ played (accepting 2) start redirection, ¬ Renews event founder otherAddress := by
  refine ⟨founder_landed, by decide +kernel, by decide +kernel, ?_, ?_⟩
  · rw [redirected_record]
    rfl
  · intro event hevent
    exact unrenewed_redirection hevent founder otherAddress

end Nymora.Protocol.Operator.AgoraState.Sample
