import Nymora.Crypto.Kdf.Theorems
import Nymora.Protocol.Operator.Run.Equivocation

namespace Nymora.Protocol.Operator.AgoraState

open Nymora.Core
open Nymora.Crypto
open Nymora.Accumulator
open Nymora.Circuits
open Std (ExtTreeMap ExtTreeSet)

variable {depth : Nat} {system : ProofSystem depth}

-- One `seal_in_place` call: the zero-nonce key and the plaintext under it.
structure Sealing where
  key : Bytes 32
  plain : List UInt8
deriving DecidableEq

-- A landed leaf as delivery visits it.
structure Target (depth : Nat) where
  policyClass : PolicyClass
  entry : ClassState depth
  position : Nat
  leaf : Commitment

-- Every landed leaf of every class, in class-then-position order.
def targets (state : AgoraState depth) : List (Target depth) :=
  state.classes.toList.flatMap fun (policyClass, entry) =>
    entry.byPosition.map fun (position, leaf) => ⟨policyClass, entry, position, leaf⟩

section Sealings

variable [Primitives]

def bodySealing (state : AgoraState depth) : Sealing :=
  ⟨state.bodyKeyNow.expose, state.bodyNow.encode⟩

-- What sealing one member's ciphertext takes; `none` for a leaf that nothing is delivered to.
def ownSealing (state : AgoraState depth) (target : Target depth) :
    Option (InboxTag × Sealing) := do
  let inbox ← state.inboxLive target.leaf
  let agreed ← Inbox.agree state.ephemeralSecretNow inbox
  let witness ← target.entry.tree.witness target.position
  return (Inbox.lookupTag agreed state.ephemeralKeyNow inbox target.policyClass, {
    key := Inbox.sealKey agreed state.ephemeralKeyNow inbox target.policyClass
    plain := state.ownPlain target.position target.entry.tree.occupiedHeight witness.siblings })

def ownSealingsNow (state : AgoraState depth) : List (InboxTag × Sealing) :=
  state.targets.filterMap state.ownSealing

-- Every seal made in building the current envelope.
def sealingsNow (state : AgoraState depth) : List Sealing :=
  state.bodySealing :: state.ownSealingsNow.map Prod.snd

variable {state : AgoraState depth} {target : Target depth}

-- What the envelope carries is what these seals produced.
theorem envelopeNow_sealed :
    state.envelopeNow.body = state.sealNow state.bodySealing.key state.bodySealing.plain ∧
      state.envelopeNow.ciphertexts = state.ownSealingsNow.map fun own =>
        ⟨own.1, state.sealNow own.2.key own.2.plain⟩ := by
  refine ⟨rfl, ?_⟩
  have hown : ∀ (policyClass : PolicyClass) (entry : ClassState depth) (position : Nat)
      (leaf : Commitment), state.ciphertextFor policyClass entry position leaf =
        (state.ownSealing ⟨policyClass, entry, position, leaf⟩).map fun own =>
          ⟨own.1, state.sealNow own.2.key own.2.plain⟩ := by
    intro policyClass entry position leaf
    simp only [ciphertextFor, ownSealing, Option.bind_eq_bind, Option.map_bind,
      Function.comp_def, Option.pure_def, Option.map_some]
  rw [envelopeNow_ciphertexts, ciphertextsNow, ownSealingsNow, targets, List.map_filterMap,
    List.filterMap_flatMap]
  congr 1
  funext named
  rw [List.filterMap_map]
  exact List.filterMap_congr fun slot _ => hown _ _ _ _

omit [Primitives] in
theorem mem_targets : target ∈ state.targets ↔
    state.classes[target.policyClass]? = some target.entry ∧
      target.entry.positions[target.leaf]? = some target.position := by
  simp only [targets, List.mem_flatMap, List.mem_map, Prod.exists,
    ExtTreeMap.mem_toList_iff_getElem?_eq_some]
  constructor
  · rintro ⟨policyClass, entry, hentry, position, leaf, hslot, rfl⟩
    exact ⟨hentry, ClassState.mem_byPosition.1 hslot⟩
  · rintro ⟨hentry, hslot⟩
    exact ⟨target.policyClass, target.entry, hentry, target.position, target.leaf,
      ClassState.mem_byPosition.2 hslot, rfl⟩

-- A landed leaf that a ciphertext is sealed for, under the key it delivers to.
structure SealedTo (state : AgoraState depth) (target : Target depth)
    (inbox : InboxPublicKey) : Prop where
  landed : target ∈ state.targets
  live : state.inboxLive target.leaf = some inbox
  agrees : (Inbox.agree state.ephemeralSecretNow inbox).isSome
  pathed : (target.entry.tree.witness target.position).isSome

-- What a ciphertext's key or tag is derived from.
def sealInput (state : AgoraState depth) (domain : Domain) (policyClass : PolicyClass)
    (inbox : InboxPublicKey) (agreed : Inbox.Agreed) : List UInt8 × List UInt8 :=
  Kdf.input domain agreed.expose.toList (Inbox.sealContext state.ephemeralKeyNow inbox policyClass)

theorem ownSealing_eq_some {own : InboxTag × Sealing} :
    state.ownSealing target = some own ↔ ∃ inbox agreed witness,
      state.inboxLive target.leaf = some inbox ∧
        Inbox.agree state.ephemeralSecretNow inbox = some agreed ∧
          target.entry.tree.witness target.position = some witness ∧
            own = (Inbox.lookupTag agreed state.ephemeralKeyNow inbox target.policyClass,
              ⟨Inbox.sealKey agreed state.ephemeralKeyNow inbox target.policyClass,
                state.ownPlain target.position target.entry.tree.occupiedHeight
                  witness.siblings⟩) := by
  simp only [ownSealing, Option.bind_eq_bind, Option.bind_eq_some_iff, Option.pure_def,
    Option.some_inj]
  constructor
  · rintro ⟨inbox, hlive, agreed, hagrees, witness, hwitness, rfl⟩
    exact ⟨inbox, agreed, witness, hlive, hagrees, hwitness, rfl⟩
  · rintro ⟨inbox, agreed, witness, hlive, hagrees, hwitness, rfl⟩
    exact ⟨inbox, hlive, agreed, hagrees, witness, hwitness, rfl⟩

omit [Primitives] in
-- Two visits are of different classes or of different leaves.
theorem targets_distinct (state : AgoraState depth) : state.targets.Pairwise fun first second =>
    first.policyClass ≠ second.policyClass ∨ first.leaf ≠ second.leaf := by
  unfold targets
  rw [List.pairwise_flatMap]
  constructor
  · rintro ⟨policyClass, entry⟩ _
    rw [List.pairwise_map]
    refine List.Pairwise.imp_of_mem ?_ entry.byPosition_sorted
    rintro ⟨position, leaf⟩ ⟨later, other⟩ hslot hlater hlt
    right
    intro heq
    have hfirst := ClassState.mem_byPosition.1 hslot
    have hsecond := ClassState.mem_byPosition.1 hlater
    rw [show leaf = other from heq, hsecond, Option.some_inj] at hfirst
    exact absurd hlt (by rw [hfirst]; exact Nat.lt_irrefl _)
  · refine List.Pairwise.imp ?_ state.classes.distinct_keys_toList
    rintro ⟨policyClass, entry⟩ ⟨other, later⟩ hkeys first hfirst second hsecond
    obtain ⟨slot, _, rfl⟩ := List.mem_map.1 hfirst
    obtain ⟨next, _, rfl⟩ := List.mem_map.1 hsecond
    left
    intro heq
    exact hkeys (Std.compare_eq_iff_eq.2 heq)

end Sealings

section Boundaries

variable {before after start state first second : AgoraState depth}

-- What a boundary fixed for the epoch: the secret, the sets, the snapshots and the trees.
structure SameBoundary (first second : AgoraState depth) : Prop where
  agora : second.agora = first.agora
  epoch : second.epoch = first.epoch
  tagSecret : second.tagSecret = first.tagSecret
  history : second.history = first.history
  revocations : second.revocations = first.revocations
  spends : second.spends = first.spends
  landings : (second.classes.map fun _ entry => entry.landings) =
    first.classes.map fun _ entry => entry.landings

theorem SameBoundary.refl (state : AgoraState depth) : SameBoundary state state :=
  ⟨rfl, rfl, rfl, rfl, rfl, rfl, rfl⟩

theorem SameBoundary.symm (hsame : SameBoundary first second) : SameBoundary second first where
  agora := hsame.agora.symm
  epoch := hsame.epoch.symm
  tagSecret := hsame.tagSecret.symm
  history := hsame.history.symm
  revocations := hsame.revocations.symm
  spends := hsame.spends.symm
  landings := hsame.landings.symm

theorem SameBoundary.trans {middle : AgoraState depth} (hfirst : SameBoundary first middle)
    (hsecond : SameBoundary middle second) : SameBoundary first second where
  agora := hsecond.agora.trans hfirst.agora
  epoch := hsecond.epoch.trans hfirst.epoch
  tagSecret := hsecond.tagSecret.trans hfirst.tagSecret
  history := hsecond.history.trans hfirst.history
  revocations := hsecond.revocations.trans hfirst.revocations
  spends := hsecond.spends.trans hfirst.spends
  landings := hsecond.landings.trans hfirst.landings

theorem Keeps.sameBoundary (hkeeps : Keeps before after) : SameBoundary before after :=
  ⟨hkeeps.agora, hkeeps.epoch, hkeeps.tagSecret, hkeeps.history, hkeeps.revocations,
    hkeeps.spends, hkeeps.landings⟩

theorem Quiet.sameBoundary (hquiet : Quiet before after) : SameBoundary before after :=
  ⟨hquiet.agora, hquiet.epoch, hquiet.tagSecret, hquiet.history, hquiet.revocations,
    hquiet.spends, by rw [hquiet.classes]⟩

variable [Primitives]

-- Within an epoch only a dissolution touches what the boundary fixed.
theorem Course.sameBoundary (hcourse : Course before after) (hepoch : after.epoch = before.epoch)
    (hlive : after.dissolved = false) : SameBoundary before after := by
  cases hcourse with
  | quiet hquiet => exact hquiet.sameBoundary
  | policy hready hentry =>
      exact hready.quiet.sameBoundary.trans (keeps_withPolicy hentry).sameBoundary
  | dissolution => cases hlive
  | inboxHorizon hready => exact hready.quiet.sameBoundary.trans ⟨rfl, rfl, rfl, rfl, rfl, rfl, rfl⟩
  | boundary _ hready hboundary =>
      have hnext := hboundary.epoch_get
      rw [hready.quiet.epoch, hepoch] at hnext
      omega

theorem Execution.sameBoundary {history : History system}
    (hexecution : Execution system start history state) (hsound : start.Sound)
    (hepoch : state.epoch = start.epoch) (hlive : state.dissolved = false) :
    SameBoundary start state := by
  refine (hexecution.preserves (motive := fun current =>
    start.epoch.get ≤ current.epoch.get ∧ (current.dissolved = false →
      current.epoch = start.epoch → SameBoundary start current)) hsound
    ⟨Nat.le_refl _, fun _ _ => .refl start⟩ ?_).2 hlive hepoch
  rintro before after _ hcourse ⟨hreached, hsame⟩
  refine ⟨Nat.le_trans hreached hcourse.epoch_le, ?_⟩
  intro hafter hstill
  have hbefore : before.dissolved = false := by
    by_contra hdissolved
    rw [Bool.not_eq_false] at hdissolved
    exact absurd (hafter.symm.trans (hcourse.dissolved hdissolved)) (by decide)
  have hmiddle : before.epoch = start.epoch := by
    apply Epoch.ext
    have hle := hcourse.epoch_le
    rw [hstill] at hle
    omega
  exact (hsame hbefore hmiddle).trans (hcourse.sameBoundary (by rw [hstill, hmiddle]) hafter)

omit [Primitives] in
theorem SameBoundary.entry (hsame : SameBoundary first second) {policyClass : PolicyClass}
    {entry later : ClassState depth} (hentry : first.classes[policyClass]? = some entry)
    (hlater : second.classes[policyClass]? = some later) :
    later.tree = entry.tree ∧ later.positions = entry.positions := by
  have hlookup := congrArg (fun classes => classes[policyClass]?) hsame.landings
  simp only [ExtTreeMap.getElem?_map, hentry, hlater, Option.map_some, Option.some_inj,
    ClassState.landings, Prod.mk.injEq] at hlookup
  exact ⟨hlookup.1, hlookup.2.2⟩

theorem SameBoundary.secrets (hsame : SameBoundary first second) :
    second.bodyKeyNow = first.bodyKeyNow ∧ second.ephemeralSecretNow = first.ephemeralSecretNow := by
  unfold bodyKeyNow ephemeralSecretNow
  rw [hsame.tagSecret, hsame.agora, hsame.epoch]
  exact ⟨rfl, rfl⟩

theorem SameBoundary.bodySealing_eq (hsame : SameBoundary first second) :
    second.bodySealing = first.bodySealing := by
  have hbody : second.bodyNow = first.bodyNow := by
    simp only [bodyNow, snapshotNow, tagKeyNow, fetchKeyNow, hsame.epoch, hsame.history,
      hsame.revocations, hsame.spends, hsame.tagSecret, hsame.agora]
  unfold bodySealing
  rw [hbody, hsame.secrets.1]

end Boundaries

section SingleUse

variable [Primitives]

-- An event that hands out an envelope, built from the state it leaves.
def Serves (event : Event system) : Prop := ∃ envelope, HandsOut event envelope

-- Every key of every envelope handed out seals one plaintext, and within one envelope no two
-- ciphertexts share a seal key or a lookup tag.
structure SingleUse (history : History system) : Prop where
  keys : ∀ event ∈ history, ∀ other ∈ history, Serves event → Serves other →
    ∀ sealing ∈ event.after.sealingsNow, ∀ later ∈ other.after.sealingsNow,
      sealing.key = later.key → sealing.plain = later.plain
  sealKeys : ∀ event ∈ history, Serves event →
    (event.after.ownSealingsNow.map fun own => own.2.key).Nodup
  tags : ∀ event ∈ history, Serves event → (event.after.ownSealingsNow.map Prod.fst).Nodup

-- What the keys or the tags of all the ciphertexts are derived from.
def sealInputs (state : AgoraState depth) (domain : Domain) : List (List UInt8 × List UInt8) :=
  state.targets.filterMap fun target => do
    let inbox ← state.inboxLive target.leaf
    let agreed ← Inbox.agree state.ephemeralSecretNow inbox
    let _ ← target.entry.tree.witness target.position
    return state.sealInput domain target.policyClass inbox agreed

def bodyInput (state : AgoraState depth) : List UInt8 × List UInt8 :=
  Kdf.input .BodyKey state.tagSecret.toList (epochContext state.agora state.epoch)

-- The derivations behind the envelopes of a run, taken as injective. An ephemeral secret is
-- clamped and a lookup tag is cut to eight bytes, and both are taken to tell their inputs apart
-- as the whole derivations do.
structure Collisionless (history : History system) : Prop where
  keys : Kdf.CollisionFree 32 {input | ∃ event ∈ history, Serves event ∧
    input ∈ event.after.bodyInput :: event.after.sealInputs .InboxSeal}
  tags : ∀ event ∈ history, Serves event →
    Kdf.CollisionFree INBOX_TAG_LEN {input | input ∈ event.after.sealInputs .InboxTag}
  ephemeral : ∀ event ∈ history, ∀ other ∈ history, Serves event → Serves other →
    event.after.ephemeralKeyNow = other.after.ephemeralKeyNow →
      event.after.epoch = other.after.epoch

-- Within an epoch no inbox key is delivered to two leaves of one class, in one envelope or
-- across several.
def Unshared (history : History system) : Prop :=
  ∀ event ∈ history, ∀ other ∈ history, Serves event → Serves other →
    event.after.epoch = other.after.epoch →
      ∀ (target twin : Target depth) (inbox : InboxPublicKey), SealedTo event.after target inbox →
        SealedTo other.after twin inbox → target.policyClass = twin.policyClass →
          target.leaf = twin.leaf

theorem mem_sealInputs {state : AgoraState depth} {target : Target depth} {domain : Domain}
    {inbox : InboxPublicKey} {agreed : Inbox.Agreed} (hsealed : SealedTo state target inbox)
    (hagreed : Inbox.agree state.ephemeralSecretNow inbox = some agreed) :
    state.sealInput domain target.policyClass inbox agreed ∈ state.sealInputs domain := by
  obtain ⟨witness, hwitness⟩ := Option.isSome_iff_exists.1 hsealed.pathed
  refine List.mem_filterMap.2 ⟨target, hsealed.landed, ?_⟩
  simp [hsealed.live, hagreed, hwitness]

theorem mem_sealingsNow {state : AgoraState depth} {sealing : Sealing} :
    sealing ∈ state.sealingsNow ↔ sealing = state.bodySealing ∨
      ∃ target inbox agreed witness, SealedTo state target inbox ∧
        Inbox.agree state.ephemeralSecretNow inbox = some agreed ∧
          target.entry.tree.witness target.position = some witness ∧
            sealing = ⟨Inbox.sealKey agreed state.ephemeralKeyNow inbox target.policyClass,
              state.ownPlain target.position target.entry.tree.occupiedHeight
                witness.siblings⟩ := by
  unfold sealingsNow ownSealingsNow
  rw [List.mem_cons, List.mem_map]
  refine or_congr_right ?_
  constructor
  · rintro ⟨own, hown, rfl⟩
    obtain ⟨target, htarget, hsealed⟩ := List.mem_filterMap.1 hown
    obtain ⟨inbox, agreed, witness, hlive, hagreed, hwitness, rfl⟩ := ownSealing_eq_some.1 hsealed
    exact ⟨target, inbox, agreed, witness, ⟨htarget, hlive, by rw [hagreed]; rfl,
      by rw [hwitness]; rfl⟩, hagreed, hwitness, rfl⟩
  · rintro ⟨target, inbox, agreed, witness, hsealed, hagreed, hwitness, rfl⟩
    exact ⟨_, List.mem_filterMap.2 ⟨target, hsealed.landed, ownSealing_eq_some.2
      ⟨inbox, agreed, witness, hsealed.live, hagreed, hwitness, rfl⟩⟩, rfl⟩

-- The parties, the class and the secret are read back from an input of one domain.
theorem sealInput_inj {first second : AgoraState depth} {domain : Domain}
    {policyClass other : PolicyClass} {inbox later : InboxPublicKey} {agreed shared : Inbox.Agreed}
    (hinput : first.sealInput domain policyClass inbox agreed =
      second.sealInput domain other later shared) :
    first.ephemeralKeyNow = second.ephemeralKeyNow ∧ inbox = later ∧ policyClass = other := by
  have hwidth : ∀ (ephemeral key : InboxPublicKey) (named : PolicyClass),
      Framing.Fits 8 (Inbox.sealContext ephemeral key named) := by
    intro ephemeral key named
    simp [Framing.Fits, Inbox.sealContext]
  have hcontext := (Kdf.input_inj (hwidth _ _ _) (hwidth _ _ _) hinput).2.2
  unfold Inbox.sealContext at hcontext
  obtain ⟨hparties, hclass⟩ := List.append_inj hcontext (by simp)
  obtain ⟨hephemeral, hinbox⟩ := List.append_inj hparties (by simp)
  exact ⟨Digest.asBytes_inj.1 (Bytes.ext hephemeral), Digest.asBytes_inj.1 (Bytes.ext hinbox),
    Digest.asBytes_inj.1 (Bytes.ext hclass)⟩

-- A body key and a seal key are never derived from one input.
theorem bodyInput_ne {first second : AgoraState depth} {policyClass : PolicyClass}
    {inbox : InboxPublicKey} {agreed : Inbox.Agreed} :
    first.bodyInput ≠ second.sealInput .InboxSeal policyClass inbox agreed := by
  intro hinput
  have htags := (Kdf.input_inj (by simp [Framing.Fits, epochContext])
    (by simp [Framing.Fits, Inbox.sealContext]) hinput).1
  exact absurd htags (by decide +kernel)

omit [Primitives] in
theorem bodyInput_inj {first second : AgoraState depth}
    (hinput : first.bodyInput = second.bodyInput) : first.epoch = second.epoch := by
  have hcontext := (Kdf.input_inj (by simp [Framing.Fits, epochContext])
    (by simp [Framing.Fits, epochContext]) hinput).2.2
  exact Epoch.toLeBytes_inj.1 (List.append_inj_right hcontext (by simp))

variable {created state : AgoraState depth} {history : History system} {event other : Event system}

theorem Execution.live_of_serves (hexecution : Execution system created history state)
    (hsound : created.Sound) (hevent : event ∈ history) (hserves : Serves event) :
    event.after.dissolved = false := by
  obtain ⟨envelope, hhands⟩ := hserves
  obtain ⟨earlier, later, rfl⟩ := List.append_of_mem hevent
  obtain ⟨_, _, htransition, _, _⟩ := hexecution.at_event hsound
  obtain ⟨_, hlive, hturns | hsame⟩ := htransition.handsOut hhands
  · obtain ⟨_, ready, next, hready, hboundary⟩ := htransition.boundary_of_turns hturns
    rw [hboundary.dissolved, hready.quiet.dissolved]
    exact hlive
  · rw [hsame]
    exact hlive

-- What is served twice in one epoch is served from one boundary.
theorem Execution.same_of_serves_after (hexecution : Execution system created history state)
    (hsound : created.Sound) {earlier later : History system}
    (hhistory : history = earlier ++ event :: later) (hother : other ∈ later)
    (hserves : Serves other) (hepoch : other.after.epoch = event.after.epoch) :
    SameBoundary event.after other.after := by
  obtain ⟨between, rest, rfl⟩ := List.append_of_mem hother
  have hplaced : other ∈ history := by simp [hhistory]
  have hlive := hexecution.live_of_serves hsound hplaced hserves
  rw [hhistory] at hexecution
  obtain ⟨_, _, _, hafter, hrest⟩ := hexecution.at_event hsound
  obtain ⟨hbetween, _, _, _, _⟩ := hrest.at_event hafter
  exact (hbetween.join hrest.single).sameBoundary hafter hepoch hlive

theorem Execution.same_of_serves (hexecution : Execution system created history state)
    (hsound : created.Sound) (hevent : event ∈ history) (hother : other ∈ history)
    (hserves : Serves event) (hserved : Serves other)
    (hepoch : event.after.epoch = other.after.epoch) :
    SameBoundary event.after other.after := by
  obtain ⟨earlier, later, hhistory⟩ := List.append_of_mem hevent
  have hplaced := hother
  rw [hhistory, List.mem_append, List.mem_cons] at hplaced
  rcases hplaced with hbefore | rfl | hafter
  · obtain ⟨first, rest, rfl⟩ := List.append_of_mem hbefore
    have hsplit : history = first ++ other :: (rest ++ event :: later) := by
      rw [hhistory, List.append_assoc, List.cons_append]
    exact (hexecution.same_of_serves_after hsound hsplit (by simp) hserves hepoch).symm
  · exact .refl _
  · exact hexecution.same_of_serves_after hsound hhistory hafter hserved hepoch.symm

-- One leaf's plaintext is the same in every envelope of an epoch.
theorem SameBoundary.ownPlain_eq {first second : AgoraState depth}
    (hsame : SameBoundary first second) {target twin : Target depth} {witness other : Witness depth}
    (htarget : target ∈ first.targets) (htwin : twin ∈ second.targets)
    (hclass : target.policyClass = twin.policyClass) (hleaf : target.leaf = twin.leaf)
    (hwitness : target.entry.tree.witness target.position = some witness)
    (hother : twin.entry.tree.witness twin.position = some other) :
    first.ownPlain target.position target.entry.tree.occupiedHeight witness.siblings =
      second.ownPlain twin.position twin.entry.tree.occupiedHeight other.siblings := by
  obtain ⟨hentry, hslot⟩ := mem_targets.1 htarget
  obtain ⟨hlater, hplace⟩ := mem_targets.1 htwin
  rw [← hclass] at hlater
  obtain ⟨htree, hpositions⟩ := hsame.entry hentry hlater
  rw [hpositions, ← hleaf, hslot, Option.some_inj] at hplace
  rw [htree, ← hplace, hwitness, Option.some_inj] at hother
  unfold ownPlain
  rw [hsame.secrets.1, htree, hplace, hother]

-- One plaintext names one position, so two leaves of a class never have the same.
theorem SameBoundary.leaf_eq {first second : AgoraState depth}
    (hsame : SameBoundary first second) {target twin : Target depth} {witness other : Witness depth}
    (htarget : target ∈ first.targets) (htwin : twin ∈ second.targets)
    (hclass : target.policyClass = twin.policyClass)
    (hwitness : target.entry.tree.witness target.position = some witness)
    (hother : twin.entry.tree.witness twin.position = some other)
    (hplain : first.ownPlain target.position target.entry.tree.occupiedHeight witness.siblings =
      second.ownPlain twin.position twin.entry.tree.occupiedHeight other.siblings) :
    target.leaf = twin.leaf := by
  have hcounted : ∀ {tree : Tree depth} {position : Nat} {path : Witness depth},
      tree.witness position = some path → position < 256 ^ 8 := by
    intro tree position path hpath
    obtain ⟨_, hindex, _⟩ := Tree.witness_eq_some hpath
    rw [← hindex]
    exact path.index_lt
  unfold ownPlain at hplain
  have hhead := List.append_inj_left hplain (by simp)
  have hkeyed := List.append_inj_left hhead (by simp)
  have hnumbers := List.append_inj_right hkeyed (by simp)
  have hposition := (LittleEndian.ofNat_inj (hcounted hwitness) (hcounted hother)).1 hnumbers
  obtain ⟨hentry, hslot⟩ := mem_targets.1 htarget
  obtain ⟨hlater, hplace⟩ := mem_targets.1 htwin
  rw [← hclass] at hlater
  obtain ⟨_, hpositions⟩ := hsame.entry hentry hlater
  rw [hpositions, ← hposition] at hplace
  exact ClassState.positions_injective hslot hplace

theorem Unshared.distinct (hunshared : Unshared history) (hevent : event ∈ history)
    (hserves : Serves event) {γ : Type} (named : InboxTag × Sealing → γ)
    (hnamed : ∀ (target twin : Target depth) (inbox later : InboxPublicKey)
      (agreed shared : Inbox.Agreed) (plain other : List UInt8),
      SealedTo event.after target inbox → SealedTo event.after twin later →
        Inbox.agree event.after.ephemeralSecretNow inbox = some agreed →
          Inbox.agree event.after.ephemeralSecretNow later = some shared →
            named (Inbox.lookupTag agreed event.after.ephemeralKeyNow inbox target.policyClass,
              ⟨Inbox.sealKey agreed event.after.ephemeralKeyNow inbox target.policyClass, plain⟩) =
            named (Inbox.lookupTag shared event.after.ephemeralKeyNow later twin.policyClass,
              ⟨Inbox.sealKey shared event.after.ephemeralKeyNow later twin.policyClass, other⟩) →
              inbox = later ∧ target.policyClass = twin.policyClass) :
    (event.after.ownSealingsNow.map named).Nodup := by
  unfold ownSealingsNow List.Nodup
  rw [List.pairwise_map, List.pairwise_filterMap]
  refine List.Pairwise.imp_of_mem ?_ event.after.targets_distinct
  intro target twin htarget htwin hdistinct own hown next hnext hsame
  obtain ⟨inbox, agreed, witness, hlive, hagreed, hwitness, rfl⟩ := ownSealing_eq_some.1 hown
  obtain ⟨later, shared, path, hlater, hshared, hpath, rfl⟩ := ownSealing_eq_some.1 hnext
  have hfirst : SealedTo event.after target inbox :=
    ⟨htarget, hlive, by rw [hagreed]; rfl, by rw [hwitness]; rfl⟩
  have hsecond : SealedTo event.after twin later :=
    ⟨htwin, hlater, by rw [hshared]; rfl, by rw [hpath]; rfl⟩
  obtain ⟨rfl, hclass⟩ := hnamed _ _ _ _ _ _ _ _ hfirst hsecond hagreed hshared hsame
  have hleaf := hunshared event hevent event hevent hserves hserves rfl target twin inbox hfirst
    hsecond hclass
  exact hdistinct.elim (fun hne => hne hclass) (fun hne => hne hleaf)

-- A seal key tells the epoch, the address and the class apart, and never is a body key.
theorem Collisionless.mem_body (hevent : event ∈ history) (hserves : Serves event) :
    event.after.bodyInput ∈ {input | ∃ event ∈ history, Serves event ∧
      input ∈ event.after.bodyInput :: event.after.sealInputs .InboxSeal} :=
  ⟨event, hevent, hserves, List.mem_cons_self⟩

theorem Collisionless.mem_seal (hevent : event ∈ history) (hserves : Serves event)
    {target : Target depth} {inbox : InboxPublicKey} {agreed : Inbox.Agreed}
    (hsealed : SealedTo event.after target inbox)
    (hagreed : Inbox.agree event.after.ephemeralSecretNow inbox = some agreed) :
    event.after.sealInput .InboxSeal target.policyClass inbox agreed ∈
      {input | ∃ event ∈ history, Serves event ∧
        input ∈ event.after.bodyInput :: event.after.sealInputs .InboxSeal} :=
  ⟨event, hevent, hserves, List.mem_cons_of_mem _ (mem_sealInputs hsealed hagreed)⟩

theorem Unshared.keys (hunshared : Unshared history) (hderived : Collisionless history)
    (hexecution : Execution system created history state) (hsound : created.Sound)
    (hevent : event ∈ history) (hother : other ∈ history) (hserves : Serves event)
    (hserved : Serves other) {sealing later : Sealing} (hsealing : sealing ∈ event.after.sealingsNow)
    (hlater : later ∈ other.after.sealingsNow) (hkey : sealing.key = later.key) :
    sealing.plain = later.plain := by
  rcases mem_sealingsNow.1 hsealing with rfl | ⟨target, inbox, agreed, witness, hsealed,
    hagreed, hwitness, rfl⟩
  · rcases mem_sealingsNow.1 hlater with rfl | ⟨twin, address, shared, path, hnext, hshared, _,
      rfl⟩
    · have hinput := hderived.keys.input_eq (Collisionless.mem_body hevent hserves)
        (Collisionless.mem_body hother hserved) hkey
      have hsame := hexecution.same_of_serves hsound hevent hother hserves hserved
        (bodyInput_inj hinput)
      rw [hsame.bodySealing_eq]
    · have hinput := hderived.keys.input_eq (Collisionless.mem_body hevent hserves)
        (Collisionless.mem_seal hother hserved hnext hshared) hkey
      exact absurd hinput bodyInput_ne
  · rcases mem_sealingsNow.1 hlater with rfl | ⟨twin, address, shared, path, hnext, hshared,
      hpath, rfl⟩
    · have hinput := hderived.keys.input_eq (Collisionless.mem_body hother hserved)
        (Collisionless.mem_seal hevent hserves hsealed hagreed) hkey.symm
      exact absurd hinput bodyInput_ne
    · have hinput := hderived.keys.input_eq
        (Collisionless.mem_seal hevent hserves hsealed hagreed)
        (Collisionless.mem_seal hother hserved hnext hshared) hkey
      obtain ⟨hephemeral, rfl, hclass⟩ := sealInput_inj hinput
      have hepoch := hderived.ephemeral event hevent other hother hserves hserved hephemeral
      have hleaf := hunshared event hevent other hother hserves hserved hepoch target twin inbox
        hsealed hnext hclass
      have hsame := hexecution.same_of_serves hsound hevent hother hserves hserved hepoch
      exact hsame.ownPlain_eq hsealed.landed hnext.landed hclass hleaf hwitness hpath

theorem Unshared.singleUse (hunshared : Unshared history) (hderived : Collisionless history)
    (hexecution : Execution system created history state) (hsound : created.Sound) :
    SingleUse history where
  keys _ hevent _ hother hserves hserved _ hsealing _ hlater hkey :=
    hunshared.keys hderived hexecution hsound hevent hother hserves hserved hsealing hlater hkey
  sealKeys event hevent hserves := by
    refine hunshared.distinct hevent hserves _ ?_
    intro target twin inbox later agreed shared plain other hfirst hsecond hagreed hshared hkeys
    have hinput := hderived.keys.input_eq (Collisionless.mem_seal hevent hserves hfirst hagreed)
      (Collisionless.mem_seal hevent hserves hsecond hshared) hkeys
    exact (sealInput_inj hinput).2
  tags event hevent hserves := by
    refine hunshared.distinct hevent hserves _ ?_
    intro target twin inbox later agreed shared plain other hfirst hsecond hagreed hshared htags
    have hinput := hderived.tags event hevent hserves (mem_sealInputs hfirst hagreed)
      (mem_sealInputs hsecond hshared)
      (congrArg (fun tag : InboxTag => tag.asBytes.toList) htags)
    exact (sealInput_inj hinput).2

theorem SingleUse.unshared (hsingle : SingleUse history)
    (hexecution : Execution system created history state) (hsound : created.Sound) :
    Unshared history := by
  intro event hevent other hother hserves hserved hepoch target twin inbox hfirst hsecond hclass
  have hsame := hexecution.same_of_serves hsound hevent hother hserves hserved hepoch
  have hephemeral : other.after.ephemeralKeyNow = event.after.ephemeralKeyNow := by
    unfold ephemeralKeyNow
    rw [hsame.secrets.2]
  obtain ⟨agreed, hagreed⟩ := Option.isSome_iff_exists.1 hfirst.agrees
  have hshared : Inbox.agree other.after.ephemeralSecretNow inbox = some agreed := by
    rw [hsame.secrets.2, hagreed]
  obtain ⟨witness, hwitness⟩ := Option.isSome_iff_exists.1 hfirst.pathed
  obtain ⟨path, hpath⟩ := Option.isSome_iff_exists.1 hsecond.pathed
  have hplain := hsingle.keys event hevent other hother hserves hserved
    _ (mem_sealingsNow.2 (Or.inr ⟨target, inbox, agreed, witness, hfirst, hagreed, hwitness, rfl⟩))
    _ (mem_sealingsNow.2 (Or.inr ⟨twin, inbox, agreed, path, hsecond, hshared, hpath, rfl⟩))
    (by rw [hephemeral, hclass])
  exact hsame.leaf_eq hfirst.landed hsecond.landed hclass hwitness hpath hplain

-- In every run over any proof system, a zero-nonce key seals one plaintext, and the ciphertexts
-- of one envelope have their own keys and tags, exactly where no address is shared.
theorem seal_keys_are_single_use {founding : Founding} {tagSecret statementEntropy : Bytes 32}
    {logSeed : Option (Bytes 32)}
    (hcreate : create founding tagSecret statementEntropy logSeed = .ok created)
    (hexecution : Execution system created history state) (hderived : Collisionless history) :
    SingleUse history ↔ Unshared history := by
  have hsound := (fresh_of_create hcreate).sound
  constructor
  · intro hsingle
    exact hsingle.unshared hexecution hsound
  · intro hunshared
    exact hunshared.singleUse hderived hexecution hsound

end SingleUse

end Nymora.Protocol.Operator.AgoraState

namespace Nymora.Protocol.Operator.AgoraState.Sample

open Nymora.Core
open Nymora.Crypto
open scoped Nymora.Crypto.Reference

-- A run that serves one state alone.
theorem collisionless_of_served {history : History (accepting 2)} {served : AgoraState 2}
    (hserved : ∀ event ∈ history, Serves event → event.after = served)
    (hkeys : ∀ left ∈ served.bodyInput :: served.sealInputs .InboxSeal,
      ∀ right ∈ served.bodyInput :: served.sealInputs .InboxSeal,
        (Primitives.hkdfSha256 left.1 left.2).toList.take 32 =
          (Primitives.hkdfSha256 right.1 right.2).toList.take 32 → left = right)
    (htags : ∀ left ∈ served.sealInputs .InboxTag, ∀ right ∈ served.sealInputs .InboxTag,
      (Primitives.hkdfSha256 left.1 left.2).toList.take 8 =
        (Primitives.hkdfSha256 right.1 right.2).toList.take 8 → left = right) :
    Collisionless history where
  keys := by
    rintro left ⟨event, hevent, hserves, hleft⟩ right ⟨other, hother, hserving, hright⟩ hsame
    rw [hserved event hevent hserves] at hleft
    rw [hserved other hother hserving] at hright
    exact hkeys left hleft right hright hsame
  tags event hevent hserves left hleft right hright hsame := by
    rw [hserved event hevent hserves] at hleft hright
    exact htags left hleft right hright hsame
  ephemeral event hevent other hother hserves hserving _ := by
    rw [hserved event hevent hserves, hserved other hother hserving]

-- A candidate registers an address and lands in the founder's class.
def joining (inbox : InboxPublicKey) : List (Call (accepting 2)) :=
  [.credentialsInit candidate inbox, .startVouch candidate members entropy,
    .vouchAttest session () nullifier, .vouchFinalize session]

def crowding (inbox : InboxPublicKey) : Event (accepting 2) :=
  playing (accepting 2) start (joining inbox) .advanceEpoch

def handedOut : Outcome → Option Envelope
  | .ok reply => reply.envelope?
  | .error _ => none

theorem handsOut_of_handedOut {event : Event (accepting 2)} {envelope : Envelope}
    (hhanded : handedOut event.outcome = some envelope) : HandsOut event envelope := by
  unfold handedOut at hhanded
  split at hhanded
  next reply houtcome => exact ⟨reply, houtcome, hhanded⟩
  next => cases hhanded

theorem handedOut_isSome {event : Event (accepting 2)} (hserves : Serves event) :
    (handedOut event.outcome).isSome = true := by
  obtain ⟨envelope, reply, houtcome, henvelope⟩ := hserves
  rw [houtcome, handedOut, henvelope]
  rfl

theorem played_crowding (inbox : InboxPublicKey) :
    played (accepting 2) start (joining inbox ++ [.advanceEpoch]) =
      played (accepting 2) start (joining inbox) ++ [crowding inbox] :=
  played_split (joining inbox) .advanceEpoch []

-- The boundary is the one call of the run that hands an envelope out.
theorem served_crowding {inbox : InboxPublicKey}
    (hsilent : (played (accepting 2) start (joining inbox)).all
      (fun event => !(handedOut event.outcome).isSome) = true) :
    ∀ event ∈ played (accepting 2) start (joining inbox ++ [.advanceEpoch]),
      Serves event → event.after = (crowding inbox).after := by
  intro event hevent hserves
  rw [played_crowding] at hevent
  rcases List.mem_append.1 hevent with hearlier | hlast
  · have hnone := List.all_eq_true.1 hsilent event hearlier
    rw [handedOut_isSome hserves] at hnone
    cases hnone
  · rw [List.mem_singleton.1 hlast]

-- The derivations behind one state's envelope, as they come out.
abbrev Separates (served : AgoraState 2) : Prop :=
  (∀ left ∈ served.bodyInput :: served.sealInputs .InboxSeal,
    ∀ right ∈ served.bodyInput :: served.sealInputs .InboxSeal,
      (Primitives.hkdfSha256 left.1 left.2).toList.take 32 =
        (Primitives.hkdfSha256 right.1 right.2).toList.take 32 → left = right) ∧
  ∀ left ∈ served.sealInputs .InboxTag, ∀ right ∈ served.sealInputs .InboxTag,
    (Primitives.hkdfSha256 left.1 left.2).toList.take 8 =
      (Primitives.hkdfSha256 right.1 right.2).toList.take 8 → left = right

-- Two members of one class at two addresses: no other shares a class and an address with either.
theorem apart_starts : (played (accepting 2) start (joining otherAddress)).all
      (fun event => !(handedOut event.outcome).isSome) = true ∧
    Separates (crowding otherAddress).after ∧
    ((crowding otherAddress).after.targets.map fun target =>
      (target.policyClass, (crowding otherAddress).after.inboxLive target.leaf)).Nodup ∧
    (crowding otherAddress).after.ownSealingsNow.length = 2 := by
  decide +kernel

theorem seal_keys_are_single_use_pair :
    SingleUse (played (accepting 2) start (joining otherAddress ++ [.advanceEpoch])) ∧
      (crowding otherAddress).after.ownSealingsNow.length = 2 := by
  obtain ⟨hsilent, ⟨hkeys, htags⟩, hnodup, hsealed⟩ := apart_starts
  have hserved := served_crowding hsilent
  refine ⟨(seal_keys_are_single_use create_start (execution_played _)
    (collisionless_of_served hserved hkeys htags)).2 ?_, hsealed⟩
  intro event hevent other hother hserves hserving _ target twin inbox hfirst hsecond hclass
  rw [hserved event hevent hserves] at hfirst
  rw [hserved other hother hserving] at hsecond
  have hsame := List.inj_on_of_nodup_map hnodup hfirst.landed hsecond.landed
    (Prod.ext hclass (hfirst.live.trans hsecond.live.symm))
  rw [hsame]

theorem shared_starts : (played (accepting 2) start (joining address)).all
      (fun event => !(handedOut event.outcome).isSome) = true ∧
    Separates (crowding address).after ∧ (handedOut (crowding address).outcome).isSome = true ∧
    (∃ first ∈ (crowding address).after.sealingsNow,
      ∃ second ∈ (crowding address).after.sealingsNow,
        first.key = second.key ∧ first.plain ≠ second.plain) ∧
    ¬ ((crowding address).after.ownSealingsNow.map Prod.fst).Nodup := by
  decide +kernel

-- Where the candidate registers the founder's address as its own, two ciphertexts of the
-- boundary's envelope are sealed under one key, over different paths.
theorem shared_address_reuses_a_key :
    Collisionless (played (accepting 2) start (joining address ++ [.advanceEpoch])) ∧
    ¬ SingleUse (played (accepting 2) start (joining address ++ [.advanceEpoch])) ∧
    ∃ envelope, HandsOut (crowding address) envelope ∧
      ¬ (envelope.ciphertexts.map Ciphertext.tag).Nodup ∧
      ∃ first ∈ (crowding address).after.sealingsNow,
        ∃ second ∈ (crowding address).after.sealingsNow,
          first.key = second.key ∧ first.plain ≠ second.plain := by
  obtain ⟨hsilent, ⟨hkeys, htags⟩, hhanded, hreused, htwice⟩ := shared_starts
  obtain ⟨envelope, henvelope⟩ := Option.isSome_iff_exists.1 hhanded
  have hhands := handsOut_of_handedOut henvelope
  have hevent : crowding address ∈
      played (accepting 2) start (joining address ++ [.advanceEpoch]) := by
    rw [played_crowding]
    exact List.mem_append_right _ (List.mem_singleton_self _)
  refine ⟨collisionless_of_served (served_crowding hsilent) hkeys htags, ?_, envelope, hhands, ?_,
    hreused⟩
  · intro hsingle
    obtain ⟨first, hfirst, second, hsecond, hkey, hplain⟩ := hreused
    exact hplain (hsingle.keys (crowding address) hevent (crowding address) hevent ⟨_, hhands⟩
      ⟨_, hhands⟩ first hfirst second hsecond hkey)
  · have hexecution := @execution_played _ _ (accepting 2) start
      (joining address ++ [.advanceEpoch])
    rw [played_crowding] at hexecution
    rw [hexecution.handed (fresh_of_create create_start).sound hhands, envelopeNow_sealed.2,
      List.map_map]
    exact htwice

end Nymora.Protocol.Operator.AgoraState.Sample
