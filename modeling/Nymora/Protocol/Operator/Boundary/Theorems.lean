import Nymora.Accumulator.Exclusion.Theorems
import Nymora.Protocol.Operator.Boundary
import Nymora.Protocol.Operator.Class.Theorems
import Nymora.Protocol.Operator.State.Theorems

namespace Nymora.Protocol.Operator.AgoraState

open Nymora.Core
open Nymora.Crypto
open Nymora.Accumulator
open Method
open Std (ExtTreeMap ExtTreeSet)

variable {depth : Nat}

@[simp] theorem live_eq_ok {state after : AgoraState depth} {result : Unit} :
    live state = .ok result after ↔ state.dissolved = false ∧ after = state := by
  simp [live, bind_eq_ok, and_comm]

@[simp] theorem live_eq_error {state after : AgoraState depth} {refusal : Rejection} :
    live state = .error refusal after ↔
      state.dissolved = true ∧ refusal = .because .Dissolved ∧ after = state := by
  simp [live, bind_eq_error]

@[simp] theorem checkLive_eq_ok {state after : AgoraState depth} {result : Unit} :
    checkLive state = .ok result after ↔ state.dissolved = false ∧ after = state := by
  simp [checkLive]

@[simp] theorem checkLive_eq_error {state after : AgoraState depth} {refusal : ProtocolError} :
    checkLive state = .error refusal after ↔
      state.dissolved = true ∧ refusal = .Rejected ∧ after = state := by
  simp only [checkLive, translating_eq_error, live_eq_error, Rejection.into]
  constructor
  · rintro ⟨_, ⟨hdissolved, _, hafter⟩, hrefusal⟩
    exact ⟨hdissolved, hrefusal, hafter⟩
  · rintro ⟨hdissolved, hrefusal, hafter⟩
    exact ⟨_, ⟨hdissolved, rfl, hafter⟩, hrefusal⟩

@[simp] theorem classEntry_eq_ok {state after : AgoraState depth} {policyClass : PolicyClass}
    {entry : ClassState depth} :
    classEntry policyClass state = .ok entry after ↔
      state.classes[policyClass]? = some entry ∧ after = state := by
  simp [classEntry, bind_eq_ok, and_comm]

@[simp] theorem classEntry_eq_error {state after : AgoraState depth} {policyClass : PolicyClass}
    {refusal : Rejection} :
    classEntry policyClass state = .error refusal after ↔
      state.classes[policyClass]? = none ∧ refusal = .because .PolicyDenied ∧ after = state := by
  simp [classEntry, bind_eq_error]

section Sequencing

variable {state after : AgoraState depth} {α : Type} {result : α}

theorem live_bind_eq_ok {rest : Unit → EStateM Rejection (AgoraState depth) α} :
    (live >>= rest) state = .ok result after ↔
      state.dissolved = false ∧ rest () state = .ok result after := by
  rw [bind_eq_ok]
  constructor
  · rintro ⟨_, _, hlive, hrest⟩
    obtain ⟨hlive, rfl⟩ := live_eq_ok.1 hlive
    exact ⟨hlive, hrest⟩
  · rintro ⟨hlive, hrest⟩
    exact ⟨(), state, live_eq_ok.2 ⟨hlive, rfl⟩, hrest⟩

theorem checkLive_bind_eq_ok {rest : Unit → EStateM ProtocolError (AgoraState depth) α} :
    (checkLive >>= rest) state = .ok result after ↔
      state.dissolved = false ∧ rest () state = .ok result after := by
  rw [bind_eq_ok]
  constructor
  · rintro ⟨_, _, hlive, hrest⟩
    obtain ⟨hlive, rfl⟩ := checkLive_eq_ok.1 hlive
    exact ⟨hlive, hrest⟩
  · rintro ⟨hlive, hrest⟩
    exact ⟨(), state, checkLive_eq_ok.2 ⟨hlive, rfl⟩, hrest⟩

theorem checkLive_bind_eq_error {rest : Unit → EStateM ProtocolError (AgoraState depth) α}
    {refusal : ProtocolError} :
    (checkLive >>= rest) state = .error refusal after ↔
      state.dissolved = true ∧ refusal = .Rejected ∧ after = state ∨
        state.dissolved = false ∧ rest () state = .error refusal after := by
  rw [bind_eq_error, checkLive_eq_error]
  constructor
  · rintro (hrefused | ⟨_, _, hlive, hrest⟩)
    · exact Or.inl hrefused
    · obtain ⟨hlive, rfl⟩ := checkLive_eq_ok.1 hlive
      exact Or.inr ⟨hlive, hrest⟩
  · rintro (hrefused | ⟨hlive, hrest⟩)
    · exact Or.inl hrefused
    · exact Or.inr ⟨(), state, checkLive_eq_ok.2 ⟨hlive, rfl⟩, hrest⟩

theorem classEntry_bind_eq_ok {policyClass : PolicyClass}
    {rest : ClassState depth → EStateM Rejection (AgoraState depth) α} :
    (classEntry policyClass >>= rest) state = .ok result after ↔
      ∃ entry, state.classes[policyClass]? = some entry ∧ rest entry state = .ok result after := by
  simp [bind_eq_ok, and_assoc]

theorem classEntry_bind_eq_error {policyClass : PolicyClass} {refusal : Rejection}
    {rest : ClassState depth → EStateM Rejection (AgoraState depth) α} :
    (classEntry policyClass >>= rest) state = .error refusal after ↔
      state.classes[policyClass]? = none ∧ refusal = .because .PolicyDenied ∧ after = state ∨
        ∃ entry, state.classes[policyClass]? = some entry ∧
          rest entry state = .error refusal after := by
  simp [bind_eq_error, and_assoc]

end Sequencing

-- The leaves staged for one class, in landing order.
def stagedFor (admissions : List (PolicyClass × Commitment)) (policyClass : PolicyClass) :
    List Commitment :=
  (admissions.filter fun admission => admission.1 = policyClass).map Prod.snd

theorem length_stagedFor (admissions : List (PolicyClass × Commitment))
    (policyClass : PolicyClass) :
    (stagedFor admissions policyClass).length =
      admissions.countP fun admission => admission.1 = policyClass := by
  rw [stagedFor, List.length_map, List.countP_eq_length_filter]

theorem mem_stagedFor {admissions : List (PolicyClass × Commitment)} {policyClass : PolicyClass}
    {leaf : Commitment} :
    leaf ∈ stagedFor admissions policyClass ↔ (policyClass, leaf) ∈ admissions := by
  simp [stagedFor]

theorem stagedFor_append (earlier later : List (PolicyClass × Commitment))
    (policyClass : PolicyClass) :
    stagedFor (earlier ++ later) policyClass =
      stagedFor earlier policyClass ++ stagedFor later policyClass := by
  simp [stagedFor]

-- What the landing loop does to the classes and the two inbox maps.
structure Landing (next : Epoch) (admissions : List (PolicyClass × Commitment))
    (before after : AgoraState depth) : Prop where
  frame : after = { before with
    classes := after.classes, inboxes := after.inboxes, stagedInboxes := after.stagedInboxes }
  unconfigured : ∀ policyClass : PolicyClass, before.classes[policyClass]? = none →
    after.classes[policyClass]? = none
  lands : ∀ (policyClass : PolicyClass) (entry : ClassState depth), before.classes[policyClass]? = some entry →
    ∃ landed, after.classes[policyClass]? = some landed ∧
      entry.LandAll (stagedFor admissions policyClass) landed
  inboxes : ∀ leaf : Commitment, after.inboxes[leaf]? =
    if leaf ∈ admissions.map Prod.snd then
      (before.stagedInboxes[leaf]?.map fun key => ⟨key, next⟩).or before.inboxes[leaf]?
    else before.inboxes[leaf]?
  stagedInboxes : ∀ leaf : Commitment, after.stagedInboxes[leaf]? =
    if leaf ∈ admissions.map Prod.snd then none else before.stagedInboxes[leaf]?

theorem landStaged_eq_ok {next : Epoch} {admission : PolicyClass × Commitment}
    {state after : AgoraState depth} {result : PUnit} :
    landStaged next admission state = .ok result after ↔
      ∃ entry position landed, state.classes[admission.1]? = some entry ∧
        entry.land admission.2 = some (position, landed) ∧
        after = AgoraState.registerStaged
          { state with classes := state.classes.insert admission.1 landed } next admission.2 := by
  simp [landStaged, bind_eq_ok]

section RegisterStaged

variable (state : AgoraState depth) (since : Epoch) (leaf other : Commitment)

theorem registerStaged_frame : state.registerStaged since leaf = { state with
    inboxes := (state.registerStaged since leaf).inboxes
    stagedInboxes := (state.registerStaged since leaf).stagedInboxes } := by
  unfold registerStaged
  split <;> rfl

theorem registerStaged_inboxes : (state.registerStaged since leaf).inboxes[other]? =
    if other = leaf then
      (state.stagedInboxes[other]?.map fun key => ⟨key, since⟩).or state.inboxes[other]?
    else state.inboxes[other]? := by
  unfold registerStaged
  by_cases hother : other = leaf
  · subst hother
    split
    next key hkey => simp [hkey]
    next hnone => simp [hnone]
  · rw [if_neg hother]
    split
    next key hkey => simp [ExtTreeMap.getElem?_insert, Ne.symm hother]
    next => rfl

theorem registerStaged_stagedInboxes : (state.registerStaged since leaf).stagedInboxes[other]? =
    if other = leaf then none else state.stagedInboxes[other]? := by
  unfold registerStaged
  by_cases hother : other = leaf
  · subst hother
    split
    next key hkey => simp
    next hnone => simp [hnone]
  · rw [if_neg hother]
    split
    next key hkey => simp [ExtTreeMap.getElem?_erase, Ne.symm hother]
    next => rfl

end RegisterStaged

theorem landing_of_loop {next : Epoch} {admissions : List (PolicyClass × Commitment)}
    {before after : AgoraState depth}
    (hloop : Loop (fun admission current landed =>
      landStaged next admission current = .ok ⟨⟩ landed) admissions before after) :
    Landing next admissions before after := by
  induction hloop with
  | nil state =>
      exact {
        frame := rfl
        unconfigured := fun _ hnone => hnone
        lands := fun _ entry hentry => ⟨entry, hentry, .nil entry⟩
        inboxes := fun _ => by simp
        stagedInboxes := fun _ => by simp }
  | @cons admission admissions before middle after hstep hrest ih =>
      obtain ⟨policyClass, leaf⟩ := admission
      obtain ⟨entry, position, landed, hentry, hland, hmiddle⟩ := landStaged_eq_ok.1 hstep
      simp only at hentry hland hmiddle
      have hframe := registerStaged_frame
        { before with classes := before.classes.insert policyClass landed } next leaf
      have hinboxes := registerStaged_inboxes
        { before with classes := before.classes.insert policyClass landed } next leaf
      have hstaged := registerStaged_stagedInboxes
        { before with classes := before.classes.insert policyClass landed } next leaf
      rw [← hmiddle] at hframe hinboxes hstaged
      have hclasses : middle.classes = before.classes.insert policyClass landed := by
        rw [hframe]
      have hmiddleClass : ∀ other, middle.classes[other]? =
          if policyClass = other then some landed else before.classes[other]? := by
        intro other
        simp [hclasses, ExtTreeMap.getElem?_insert]
      refine { frame := ?_, unconfigured := ?_, lands := ?_, inboxes := ?_, stagedInboxes := ?_ }
      · rw [ih.frame, hframe]
      · intro other hnone
        refine ih.unconfigured other ?_
        have hne : policyClass ≠ other := by
          rintro rfl
          rw [hentry] at hnone
          cases hnone
        rw [hmiddleClass, if_neg hne]
        exact hnone
      · intro other otherEntry hother
        by_cases heq : policyClass = other
        · subst heq
          obtain rfl : entry = otherEntry := Option.some_inj.1 (hentry.symm.trans hother)
          obtain ⟨final, hfinal, hlands⟩ :=
            ih.lands policyClass landed (by rw [hmiddleClass, if_pos rfl])
          refine ⟨final, hfinal, ?_⟩
          have hcons : stagedFor ((policyClass, leaf) :: admissions) policyClass =
              leaf :: stagedFor admissions policyClass := by simp [stagedFor]
          rw [hcons]
          exact .cons ⟨position, hland⟩ hlands
        · obtain ⟨final, hfinal, hlands⟩ :=
            ih.lands other otherEntry (by rw [hmiddleClass, if_neg heq]; exact hother)
          refine ⟨final, hfinal, ?_⟩
          have hcons : stagedFor ((policyClass, leaf) :: admissions) other =
              stagedFor admissions other := by simp [stagedFor, heq]
          rw [hcons]
          exact hlands
      · intro other
        rw [ih.inboxes other, hinboxes other, hstaged other, List.map_cons]
        by_cases hfirst : other = leaf
        · simp [hfirst]
        · by_cases hlater : other ∈ admissions.map Prod.snd
          · rw [if_pos hlater, if_pos (List.mem_cons_of_mem _ hlater), if_neg hfirst,
              if_neg hfirst]
          · rw [if_neg hlater, if_neg (List.not_mem_cons_of_ne_of_not_mem hfirst hlater),
              if_neg hfirst]
      · intro other
        rw [ih.stagedInboxes other, hstaged other, List.map_cons]
        by_cases hfirst : other = leaf
        · simp [hfirst]
        · by_cases hlater : other ∈ admissions.map Prod.snd
          · rw [if_pos hlater, if_pos (List.mem_cons_of_mem _ hlater)]
          · rw [if_neg hlater, if_neg (List.not_mem_cons_of_ne_of_not_mem hfirst hlater),
              if_neg hfirst]

-- A loop whose every admission names a configured class with room runs to its end.
theorem exists_landing (next : Epoch) (admissions : List (PolicyClass × Commitment))
    (before : AgoraState depth)
    (hconfigured : ∀ admission ∈ admissions, admission.1 ∈ before.classes)
    (hroom : ∀ (policyClass : PolicyClass) (entry : ClassState depth), before.classes[policyClass]? = some entry →
      stagedFor admissions policyClass = [] ∨
        entry.occupied + (stagedFor admissions policyClass).length ≤ ClassState.CAPACITY depth) :
    ∃ after, Loop (fun admission current landed =>
      landStaged next admission current = .ok ⟨⟩ landed) admissions before after := by
  induction admissions generalizing before with
  | nil => exact ⟨before, .nil before⟩
  | cons admission admissions ih =>
      obtain ⟨policyClass, leaf⟩ := admission
      obtain ⟨entry, hentry⟩ := Option.isSome_iff_exists.1
        (ExtTreeMap.mem_iff_isSome_getElem?.1 (hconfigured _ List.mem_cons_self))
      simp only at hentry
      have hcons : stagedFor ((policyClass, leaf) :: admissions) policyClass =
          leaf :: stagedFor admissions policyClass := by simp [stagedFor]
      have hspace := hroom policyClass entry hentry
      rw [hcons, List.length_cons] at hspace
      have hbelow : entry.occupied < ClassState.CAPACITY depth := by
        rcases hspace with hnil | hle
        · cases hnil
        · omega
      obtain ⟨⟨position, landed⟩, hland⟩ :=
        Option.isSome_iff_exists.1 (ClassState.land_isSome leaf hbelow)
      obtain ⟨_, _, _, hoccupied, _, _⟩ := ClassState.land_eq_some hland
      let middle := AgoraState.registerStaged
        { before with classes := before.classes.insert policyClass landed } next leaf
      have hclasses : middle.classes = before.classes.insert policyClass landed := by
        change (registerStaged _ _ _).classes = _
        rw [registerStaged_frame]
      obtain ⟨after, hrest⟩ := ih middle
        (by
          intro later hlater
          rw [hclasses, ExtTreeMap.mem_insert]
          exact Or.inr (hconfigured later (List.mem_cons_of_mem _ hlater)))
        (by
          intro other otherEntry hother
          simp only [hclasses, ExtTreeMap.getElem?_insert, Std.compare_eq_iff_eq] at hother
          by_cases heq : policyClass = other
          · subst heq
            rw [if_pos rfl, Option.some_inj] at hother
            subst hother
            rcases hspace with hnil | hle
            · cases hnil
            · exact Or.inr (by omega)
          · rw [if_neg heq] at hother
            have hskip : stagedFor ((policyClass, leaf) :: admissions) other =
                stagedFor admissions other := by simp [stagedFor, heq]
            have hother' := hroom other otherEntry hother
            rwa [hskip] at hother')
      exact ⟨after, .cons (landStaged_eq_ok.2 ⟨entry, position, landed, hentry, hland, rfl⟩) hrest⟩

variable [Primitives]

-- Everything a successful boundary does, field by field.
structure Boundary (next : Epoch) (before after : AgoraState depth) : Prop where
  following : before.epoch.next = some next
  epoch : after.epoch = next
  staged : after.staged = {}
  sessions : after.sessions = ∅
  proposals : after.proposals = ∅
  challenges : after.challenges = ∅
  history : after.history = before.history.insert next.get after.rootsNow
  log : after.log = before.log.map fun log => log.publish (after.rootsNow.published next)
  spends : after.spends =
    before.staged.spends.foldl (fun spends spend => spends.insert spend.asBytes) before.spends
  revocations : after.revocations = before.staged.revocations.foldl
    (fun revocations leaf => revocations.insert (revocationKey leaf)) before.revocations
  revokedLeaves : after.revokedLeaves =
    before.staged.revocations.foldl (fun leaves leaf => leaves.insert leaf) before.revokedLeaves
  unconfigured : ∀ policyClass : PolicyClass, before.classes[policyClass]? = none →
    after.classes[policyClass]? = none
  lands : ∀ (policyClass : PolicyClass) (entry : ClassState depth),
    before.classes[policyClass]? = some entry →
      ∃ landed, after.classes[policyClass]? = some landed ∧
        entry.LandAll (stagedFor before.staged.admissions policyClass) landed
  inboxes : ∀ leaf : Commitment, after.inboxes[leaf]? =
    if leaf ∈ before.staged.admissions.map Prod.snd then
      (before.stagedInboxes[leaf]?.map fun key => ⟨key, next⟩).or before.inboxes[leaf]?
    else before.inboxes[leaf]?
  stagedInboxes : ∀ leaf : Commitment, after.stagedInboxes[leaf]? =
    if leaf ∈ before.staged.admissions.map Prod.snd then none else before.stagedInboxes[leaf]?
  agora : after.agora = before.agora
  governanceQuorum : after.governanceQuorum = before.governanceQuorum
  pending : after.pending = before.pending
  tagSecret : after.tagSecret = before.tagSecret
  statementSeed : after.statementSeed = before.statementSeed
  dissolved : after.dissolved = before.dissolved
  inboxHorizon : after.inboxHorizon = before.inboxHorizon

-- The spends in the set after a boundary are the earlier ones and the staged ones.
theorem Boundary.mem_spends {next : Epoch} {before after : AgoraState depth} {key : Bytes 32}
    (hboundary : Boundary next before after) : key ∈ after.spends.keys ↔
      (∃ spend ∈ before.staged.spends, key = truncateKey spend.asBytes) ∨
        key ∈ before.spends.keys := by
  have hfold : after.spends =
      (before.staged.spends.map Digest.asBytes).foldl ExclusionSet.insert before.spends := by
    rw [hboundary.spends, List.foldl_map]
  rw [hfold, ExclusionSet.mem_keys_foldl_insert]
  simp

theorem Boundary.mem_revocations {next : Epoch} {before after : AgoraState depth} {key : Bytes 32}
    (hboundary : Boundary next before after) : key ∈ after.revocations.keys ↔
      (∃ leaf ∈ before.staged.revocations, key = truncateKey (revocationKey leaf)) ∨
        key ∈ before.revocations.keys := by
  have hfold : after.revocations =
      (before.staged.revocations.map revocationKey).foldl ExclusionSet.insert
        before.revocations := by
    rw [hboundary.revocations, List.foldl_map]
  rw [hfold, ExclusionSet.mem_keys_foldl_insert]
  simp

omit [Primitives] in
private theorem mem_foldl_insert {leaves : List Commitment} {set : ExtTreeSet Commitment}
    {leaf : Commitment} : leaf ∈ leaves.foldl (fun set leaf => set.insert leaf) set ↔
      leaf ∈ leaves ∨ leaf ∈ set := by
  induction leaves generalizing set with
  | nil => simp
  | cons first leaves ih =>
      rw [List.foldl_cons, ih, ExtTreeSet.mem_insert, Std.compare_eq_iff_eq, List.mem_cons,
        eq_comm (a := leaf)]
      tauto

theorem Boundary.mem_revokedLeaves {next : Epoch} {before after : AgoraState depth}
    {leaf : Commitment} (hboundary : Boundary next before after) :
    leaf ∈ after.revokedLeaves ↔
      leaf ∈ before.staged.revocations ∨ leaf ∈ before.revokedLeaves := by
  rw [hboundary.revokedLeaves, mem_foldl_insert]

omit [Primitives] in
theorem foldl_landSpend (spends : List Nullifier) (state : AgoraState depth) :
    spends.foldl landSpend state = { state with
      spends := spends.foldl (fun spends spend => spends.insert spend.asBytes) state.spends } := by
  induction spends generalizing state with
  | nil => rfl
  | cons spend spends ih =>
      rw [List.foldl_cons, List.foldl_cons, ih]
      rfl

omit [Primitives] in
theorem foldl_landRevocation (revoked : List Commitment) (state : AgoraState depth) :
    revoked.foldl landRevocation state = { state with
      revocations := revoked.foldl (fun revocations leaf =>
        revocations.insert (revocationKey leaf)) state.revocations
      revokedLeaves := revoked.foldl (fun leaves leaf => leaves.insert leaf)
        state.revokedLeaves } := by
  induction revoked generalizing state with
  | nil => rfl
  | cons leaf revoked ih =>
      rw [List.foldl_cons, List.foldl_cons, List.foldl_cons, ih]
      rfl

-- What happens once every admission has landed.
def close (next : Epoch) (staged : Staged) (landed : AgoraState depth) : AgoraState depth :=
  ((staged.revocations.foldl landRevocation (staged.spends.foldl landSpend landed)).turn
    next).snapshot

theorem boundary_of_landing {next : Epoch} {before landed : AgoraState depth}
    (hnext : before.epoch.next = some next)
    (hlanding : Landing next before.staged.admissions { before with staged := {} } landed) :
    Boundary next before (close next before.staged landed) := by
  have hframe := hlanding.frame
  have hclose : close next before.staged landed = AgoraState.snapshot { landed with
      spends := before.staged.spends.foldl (fun spends spend =>
        spends.insert spend.asBytes) before.spends
      revocations := before.staged.revocations.foldl (fun revocations leaf =>
        revocations.insert (revocationKey leaf)) before.revocations
      revokedLeaves := before.staged.revocations.foldl (fun leaves leaf =>
        leaves.insert leaf) before.revokedLeaves
      epoch := next, sessions := ∅, proposals := ∅, challenges := ∅ } := by
    rw [close, foldl_landSpend, foldl_landRevocation, turn, hframe]
  rw [hclose]
  exact {
    following := hnext
    epoch := rfl
    staged := by rw [hframe]; rfl
    sessions := rfl
    proposals := rfl
    challenges := rfl
    history := by rw [hframe]; rfl
    log := by
      rw [snapshot_log, hframe]
      rfl
    spends := rfl
    revocations := rfl
    revokedLeaves := rfl
    unconfigured := hlanding.unconfigured
    lands := hlanding.lands
    inboxes := hlanding.inboxes
    stagedInboxes := hlanding.stagedInboxes
    agora := by rw [hframe]; rfl
    governanceQuorum := by rw [hframe]; rfl
    pending := by rw [hframe]; rfl
    tagSecret := by rw [hframe]; rfl
    statementSeed := by rw [hframe]; rfl
    dissolved := by rw [hframe]; rfl
    inboxHorizon := by rw [hframe]; rfl }

-- Everything staged has a configured class with room to land in, and lands there once.
structure Provisioned (state : AgoraState depth) : Prop where
  configured : ∀ admission ∈ state.staged.admissions, admission.1 ∈ state.classes
  room : ∀ (policyClass : PolicyClass) (entry : ClassState depth),
    state.classes[policyClass]? = some entry →
      stagedFor state.staged.admissions policyClass = [] ∨
        entry.occupied + (stagedFor state.staged.admissions policyClass).length ≤
          ClassState.CAPACITY depth
  unlanded : ∀ (policyClass : PolicyClass) (entry : ClassState depth) (leaf : Commitment),
    state.classes[policyClass]? = some entry → (policyClass, leaf) ∈ state.staged.admissions →
      leaf ∉ entry.positions
  distinct : state.staged.admissions.Nodup

omit [Primitives] in
theorem provisioned_of_nil {state : AgoraState depth} (hstaged : state.staged.admissions = []) :
    Provisioned state where
  configured := by simp [hstaged]
  room := by simp [hstaged, stagedFor]
  unlanded := by simp [hstaged]
  distinct := by simp [hstaged]

-- A successful call turns the epoch and hands out the envelope of the state it leaves.
theorem boundary_of_advanceEpoch {state after : AgoraState depth} {envelope : Envelope}
    (hadvance : advanceEpoch state = .ok envelope after) :
    state.dissolved = false ∧ (∃ next, Boundary next state after) ∧
      envelope = after.envelopeNow := by
  simp only [advanceEpoch, checkLive_bind_eq_ok, get_bind, modify_bind,
    expect_bind_eq_ok] at hadvance
  obtain ⟨hlive, next, hnext, hadvance⟩ := hadvance
  obtain ⟨_, landed, hloop, hrest⟩ := bind_eq_ok.1 hadvance
  simp only [modify_bind, get_bind, pure_eq_ok] at hrest
  obtain ⟨rfl, rfl⟩ := hrest
  exact ⟨hlive, ⟨next, boundary_of_landing hnext (landing_of_loop (forM_eq_ok.1 hloop))⟩, rfl⟩

-- The state after a boundary that took what was staged and could not turn the epoch.
def unstage (state : AgoraState depth) : AgoraState depth := { state with staged := {} }

-- With everything provisioned, the last epoch is all that stops a live agora, and what was
-- staged is dropped there.
theorem advanceEpoch_eq_error {state after : AgoraState depth} {refusal : ProtocolError}
    (hprovisioned : state.Provisioned) (herror : advanceEpoch state = .error refusal after) :
    state.dissolved = true ∧ after = state ∨
      state.dissolved = false ∧ state.epoch.next = none ∧ after = state.unstage := by
  simp only [advanceEpoch, checkLive_bind_eq_error, get_bind, modify_bind,
    expect_bind_eq_error] at herror
  obtain ⟨hdissolved, _, hafter⟩ | ⟨hlive, ⟨hnext, _, hafter⟩ | ⟨next, hnext, hrest⟩⟩ := herror
  · exact Or.inl ⟨hdissolved, hafter⟩
  · exact Or.inr ⟨hlive, hnext, hafter⟩
  · -- Past the epoch check only a landing could refuse, and every staged leaf has its place.
    rw [bind_eq_error] at hrest
    simp only [modify_bind, get_bind, pure_eq_error, and_false, exists_false, or_false] at hrest
    obtain ⟨landed, hlanded⟩ := exists_landing next state.staged.admissions
      { state with staged := {} } hprovisioned.configured hprovisioned.room
    have hcontrary : EStateM.Result.ok PUnit.unit landed = .error refusal after :=
      (forM_eq_ok.2 hlanded).symm.trans hrest
    cases hcontrary

end Nymora.Protocol.Operator.AgoraState
