import Nymora.Circuits.Stub
import Nymora.Protocol.Member.Reception
import Nymora.Protocol.Operator.Run.Snapshots

namespace Nymora.Protocol.Member

open Nymora.Core
open Nymora.Crypto
open Nymora.Accumulator
open Nymora.Circuits
open Nymora.Proofs
open Nymora.Ports
open Operator
open Operator.AgoraState (Execution HandsOut History Serves)
open Runs

variable {depth : Nat} [Primitives] {system : ProofSystem depth}

-- The messages signed for these streams tell them apart.
def SignedApart (streams : List (List UInt8)) : Prop :=
  ∀ left ∈ streams, ∀ right ∈ streams,
    Field.fromId (Primitives.sha256 left) = Field.fromId (Primitives.sha256 right) → left = right

-- So they do where no two of them are signed alike.
theorem signedApart_of_nodup {streams : List (List UInt8)}
    (hnodup : (streams.map fun stream => Field.fromId (Primitives.sha256 stream)).Nodup) :
    SignedApart streams :=
  fun _ hleft _ hright => List.inj_on_of_nodup_map hnodup hleft hright

theorem SignedApart.of_subset {streams others : List (List UInt8)} (hapart : SignedApart others)
    (hsubset : streams ⊆ others) : SignedApart streams :=
  fun left hleft right hright => hapart left (hsubset hleft) right (hsubset hright)

-- What the primitives are taken not to do for one delivery, after the operator's history so far:
-- the operator's key verifies no message the operator has not signed, nothing hashed for the
-- statements collides, and neither does the member's lookup tag.
structure Authentic (statementKey : Bytes 32) (history : History system) (member : Member depth)
    (envelope : Envelope) : Prop where
  unforged : Signature.verify statementKey.toList
      (Field.fromId (envelope.statement member.agora).digest) envelope.signature.toList = true →
    ∃ event ∈ history, ∃ handed, HandsOut event handed ∧
      Field.fromId (envelope.statement member.agora).digest =
        Field.fromId (handed.statement event.after.agora).digest
  apart : ∀ event ∈ history, ∀ handed, HandsOut event handed →
    SignedApart (envelope.statementStreams member.agora ++
      handed.statementStreams event.after.agora)
  distinguished : ∀ event ∈ history, Serves event → Distinguished member event.after
  addressed : envelope.Addressed

-- The envelopes of a run are buffers in memory.
structure Buffered (history : History system) : Prop where
  addressed : ∀ event ∈ history, ∀ handed, HandsOut event handed → handed.Addressed
  body : ∀ event ∈ history, Serves event → event.after.bodyNow.encode.length < 2 ^ 64

-- What a member may hold after the operator's history: nothing yet, or the operator's own view of
-- an epoch it served; and tag keys the operator served, in order, each kept in the store.
structure Synced (statementKey : Bytes 32) (agora : AgoraId) (history : History system)
    (member : Member depth) : Prop where
  joined : member.agora = agora
  pinned : member.statementKey = some statementKey
  current : Untouched member ∨
    ∃ event ∈ history, Serves event ∧ Follows member event.after
  dated : (member.tagKeys.map fun keyed => keyed.1.get).Pairwise (· < ·)
  newest : member.tagKeys.getLast?.map Prod.fst = member.epoch
  keyed : ∀ keyed ∈ member.tagKeys,
    (∃ event ∈ history, Serves event ∧ keyed = (event.after.epoch, event.after.tagKeyNow)) ∧
      member.store (agora, .TagKey keyed.1) = some keyed.2.expose.toList

variable {statementKey : Bytes 32} {agora : AgoraId} {created state : AgoraState depth}
  {history : History system} {member after : Member depth} {envelope : Envelope}

-- What is signed for one statement is signed for no other.
theorem carries_of_signed {handed : Envelope} {served : AgoraState depth} {elsewhere : AgoraId}
    (hserved : handed = served.envelopeNow) (haddressed : envelope.Addressed)
    (hhanded : handed.Addressed)
    (hapart : SignedApart (envelope.statementStreams agora ++ handed.statementStreams elsewhere))
    (hsigned : Field.fromId (envelope.statement agora).digest =
      Field.fromId (handed.statement elsewhere).digest) :
    agora = elsewhere ∧ envelope.Carries served := by
  have hfree : ByteHasher.CollisionFree
      (envelope.statementStreams agora ++ handed.statementStreams elsewhere) := by
    intro left hleft right hright hhash
    exact hapart left hleft right hright (congrArg Field.fromId hhash)
  have hdigest : (envelope.statement agora).digest = (handed.statement elsewhere).digest := by
    rw [EnvelopeStatement.digest_eq, EnvelopeStatement.digest_eq] at hsigned ⊢
    exact congrArg Primitives.sha256 (hapart _ (by simp [Envelope.statementStreams]) _
      (by simp [Envelope.statementStreams]) hsigned)
  obtain ⟨hagora, hepoch, hkey, hbody, hciphertexts, _⟩ :=
    Envelope.statement_digest_inj haddressed hhanded hfree hdigest
  subst hserved
  exact ⟨hagora, hepoch, hkey, hbody, hciphertexts⟩

-- Whatever verifies under the pinned key, the operator handed out.
theorem Authentic.carries (hauthentic : Authentic statementKey history member envelope)
    (hbuffered : Buffered history) (hexecution : Execution system created history state)
    (hsound : created.Sound)
    (hverifies : Signature.verify statementKey.toList
      (Field.fromId (envelope.statement member.agora).digest) envelope.signature.toList = true) :
    ∃ event ∈ history, Serves event ∧ event.after.Sound ∧ member.agora = event.after.agora ∧
      envelope.Carries event.after := by
  obtain ⟨event, hevent, handed, hhands, hsigned⟩ := hauthentic.unforged hverifies
  obtain ⟨earlier, later, hhistory⟩ := List.append_of_mem hevent
  rw [hhistory] at hexecution
  obtain ⟨_, _, htransition, hafter, _⟩ := hexecution.at_event hsound
  obtain ⟨hagora, hcarries⟩ := carries_of_signed (htransition.handsOut hhands).1
    hauthentic.addressed (hbuffered.addressed event hevent handed hhands)
    (hauthentic.apart event hevent handed hhands) hsigned
  exact ⟨event, hevent, ⟨handed, hhands⟩, hafter, hagora, hcarries⟩

-- What a member knows of the operator's past, more of it does not take away.
theorem Synced.append (hsynced : Synced statementKey agora history member)
    (later : History system) : Synced statementKey agora (history ++ later) member where
  joined := hsynced.joined
  pinned := hsynced.pinned
  current := by
    refine hsynced.current.imp_right ?_
    rintro ⟨event, hevent, hfollows⟩
    exact ⟨event, List.mem_append_left _ hevent, hfollows⟩
  dated := hsynced.dated
  newest := hsynced.newest
  keyed := by
    intro keyed hkeyed
    obtain ⟨⟨event, hevent, hserved⟩, hheld⟩ := hsynced.keyed keyed hkeyed
    exact ⟨⟨event, List.mem_append_left _ hevent, hserved⟩, hheld⟩

-- The tag keys are dated up to the last, so that a newer one keeps them in order.
theorem Synced.dated_lt (hsynced : Synced statementKey agora history member) {epoch : Epoch}
    (hnewer : ∀ last ∈ member.epoch, last.get < epoch.get) :
    ∀ keyed ∈ member.tagKeys, keyed.1.get < epoch.get := by
  intro keyed hkeyed
  have hne : member.tagKeys ≠ [] := List.ne_nil_of_mem hkeyed
  have hlast := hnewer (member.tagKeys.getLast hne).1 (by
    rw [← hsynced.newest, List.getLast?_eq_some_getLast hne]
    rfl)
  have hsplit := List.dropLast_append_getLast hne
  have hdated := hsynced.dated
  rw [← hsplit, List.map_append, List.pairwise_append] at hdated
  rw [← hsplit, List.mem_append, List.mem_singleton] at hkeyed
  rcases hkeyed with hearlier | rfl
  · exact Nat.lt_trans (hdated.2.2 _ (List.mem_map_of_mem hearlier) _ (by simp)) hlast
  · exact hlast

-- An envelope a member takes is one the operator handed out, and brings it that epoch.
theorem Synced.receive (hsynced : Synced statementKey agora history member)
    (hauthentic : Authentic statementKey history member envelope) (hbuffered : Buffered history)
    (hexecution : Execution system created history state) (hsound : created.Sound)
    (hdepth : depth < 64) (hopens : Inbox.OpenAfterSeal)
    (hreceive : member.receive envelope = .ok after) :
    Synced statementKey agora history after := by
  obtain ⟨own, path, view, classRoot, equipped, hopened, hequipped, hroll⟩ :=
    receive_eq_ok.1 hreceive
  obtain ⟨pinned, hpinned, haccepted⟩ := hopened.accepted
  obtain rfl : pinned = statementKey := Option.some_inj.1 (hpinned.symm.trans hsynced.pinned)
  obtain ⟨hnewer, hverifies⟩ := acceptEnvelope_eq_ok.1 haccepted
  obtain ⟨event, hevent, hserves, hserved, hagora, hcarries⟩ :=
    hauthentic.carries hbuffered hexecution hsound hverifies
  have hfollows := hopened.follows hcarries hagora hserved hdepth hopens
    (hbuffered.body event hevent hserves) (hauthentic.distinguished event hevent hserves)
  have hkey : (envelope.epoch, view.tagKey) = (event.after.epoch, event.after.tagKeyNow) := by
    have hlast := hfollows.tagKey
    rw [apply, List.getLast?_concat] at hlast
    exact Option.some.inj hlast
  rw [operate_storeTagKey, Except.ok.injEq] at hequipped
  subst hequipped
  obtain ⟨hafter, _⟩ := roll_ok hroll
  have hstore : ∀ epoch, after.store (member.agora, .TagKey epoch) =
      Function.update member.store (member.agora, .TagKey envelope.epoch)
        (some view.tagKey.expose.toList) (member.agora, .TagKey epoch) :=
    fun epoch => roll_kept hroll rfl (by simp)
  rw [hafter]
  constructor
  · exact hsynced.joined
  · exact hsynced.pinned
  · exact .inr ⟨event, hevent, hserves, hfollows.of_store after.store⟩
  · simp only [apply, List.map_append, List.map_cons, List.map_nil, List.pairwise_append]
    refine ⟨hsynced.dated, List.pairwise_singleton _ _, ?_⟩
    intro number hnumber last hlast
    obtain ⟨keyed, hkeyed, rfl⟩ := List.mem_map.1 hnumber
    rw [List.mem_singleton.1 hlast]
    exact hsynced.dated_lt hnewer keyed hkeyed
  · simp [apply]
  · intro keyed hkeyed
    rw [← hsynced.joined, hstore]
    rcases List.mem_append.1 hkeyed with hearlier | hlast
    · obtain ⟨hserved, hheld⟩ := hsynced.keyed keyed hearlier
      have hne : keyed.1 ≠ envelope.epoch := by
        intro heq
        have hlt := hsynced.dated_lt hnewer keyed hearlier
        rw [heq] at hlt
        exact Nat.lt_irrefl _ hlt
      rw [Function.update_of_ne (by simpa using hne), hsynced.joined]
      exact ⟨hserved, hheld⟩
    · rw [List.mem_singleton.1 hlast, Function.update_self]
      exact ⟨⟨event, hevent, hserves, hkey⟩, rfl⟩

-- What an epoch served stays: later states of the run still record the same roots for it.
theorem Follows.recorded {event : AgoraState.Event system} (hfollows : Follows member event.after)
    (hexecution : Execution system created history state) (hsound : created.Sound)
    (hevent : event ∈ history) : event.after.epoch.get ≤ state.epoch.get ∧
      ∃ roots, member.roots = some roots ∧
        state.rootsIn event.after.epoch member.policyClass = .ok roots := by
  obtain ⟨_, _, roots, _, _, _, hroots, hheld, _⟩ := hfollows.placed
  obtain ⟨earlier, later, rfl⟩ := List.append_of_mem hevent
  obtain ⟨_, _, _, hafter, hlater⟩ := hexecution.at_event hsound
  refine ⟨hlater.epoch_le hafter, roots, hheld, ?_⟩
  rw [hlater.rootsIn_kept hafter, hroots]
  exact Std.ExtTreeMap.mem_iff_isSome_getElem?.2 (by rw [hafter.rooted]; rfl)

-- Two members at one epoch hold the same sets, keys and, within a class, roots.
structure Agrees (member peer : Member depth) : Prop where
  revocations : member.revocations = peer.revocations
  spends : member.spends = peer.spends
  fetchKey : member.fetchKey = peer.fetchKey
  tagKey : member.tagKeys.getLast? = peer.tagKeys.getLast?
  roots : member.policyClass = peer.policyClass → member.roots = peer.roots

theorem Follows.agrees {peer : Member depth} {event other : AgoraState.Event system}
    (hfollows : Follows member event.after) (hpeer : Follows peer other.after)
    (hepoch : member.epoch = peer.epoch)
    (hexecution : Execution system created history state) (hsound : created.Sound)
    (hevent : event ∈ history) (hother : other ∈ history) (hserves : Serves event)
    (hserved : Serves other) : Agrees member peer := by
  have hnumber : event.after.epoch = other.after.epoch :=
    Option.some.inj (hfollows.epoch.symm.trans (hepoch.trans hpeer.epoch))
  have hsame := hexecution.same_of_serves hsound hevent hother hserves hserved hnumber
  have hkeys : other.after.tagKeyNow = event.after.tagKeyNow ∧
      other.after.fetchKeyNow = event.after.fetchKeyNow := by
    simp only [AgoraState.tagKeyNow, AgoraState.fetchKeyNow, hsame.tagSecret, hsame.agora,
      hsame.epoch, and_self]
  constructor
  · rw [hfollows.revocations, hpeer.revocations, hsame.revocations]
  · rw [hfollows.spends, hpeer.spends, hsame.spends]
  · rw [hfollows.fetchKey, hpeer.fetchKey, hkeys.2]
  · rw [hfollows.tagKey, hpeer.tagKey, hkeys.1, hnumber]
  · intro hclass
    obtain ⟨_, roots, hheld, hrecorded⟩ := hfollows.recorded hexecution hsound hevent
    obtain ⟨_, others, hkept, hnoted⟩ := hpeer.recorded hexecution hsound hother
    rw [hclass, hnumber, hnoted, Except.ok.injEq] at hrecorded
    rw [hheld, hkept, hrecorded]

section Runs

variable {ρ : Type} [DecidableEq ρ]

-- One operator and its members' hosts.
abbrev Net (depth : Nat) (ρ : Type) : Type :=
  Network.World (AgoraState depth) (Option (Member depth)) ρ

abbrev NetMove (system : ProofSystem depth) (ρ : Type) : Type :=
  Network.Move (Call system) Envelope ρ

def Net.run (net : Net depth ρ) (moves : List (NetMove system ρ)) : Net depth ρ :=
  final (Network.step (AgoraState.step system) take) net moves

-- The operator's part of a run.
def Net.past (net : Net depth ρ) (moves : List (NetMove system ρ)) : History system :=
  events (AgoraState.step system) net.server (Network.calls moves)

-- A host as it joins: a credential enrolled for the operator's agora, with whatever position its
-- admission promised, and the operator's statement key pinned.
def Joins (operator : AgoraState depth) (member : Member depth) : Prop :=
  ∃ keys entropy epochSeed policyClass epoch position enrolled,
    enroll keys entropy epochSeed operator.agora policyClass epoch = .ok enrolled ∧
      member = { enrolled with statementKey := some operator.statementKey, position }

-- Nothing is taken of the primitives but what each delivery meets.
structure Net.Sane (net : Net depth ρ) (moves : List (NetMove system ρ)) : Prop where
  buffered : Buffered (net.past moves)
  authentic : ∀ earlier client envelope later member,
    moves = earlier ++ .deliver client envelope :: later →
      (net.run earlier).clients client = some member →
        Authentic net.server.statementKey (net.past earlier) member envelope

variable {net : Net depth ρ} {moves : List (NetMove system ρ)}

theorem Net.execution (net : Net depth ρ) (moves : List (NetMove system ρ)) :
    Execution system net.server (net.past moves) (net.run moves).server :=
  ⟨Network.calls moves, rfl, Network.server_final moves⟩

-- A call is nothing to the hosts, and what a host takes is what it becomes.
theorem Net.clients_call (net : Net depth ρ) (moves : List (NetMove system ρ))
    (call : Call system) :
    (net.run (moves ++ [.call call])).clients = (net.run moves).clients := by
  rw [Net.run, final_concat, ← Net.run]
  rfl

theorem Net.clients_deliver {client : ρ} (hmember : (net.run moves).clients client = some member)
    (hreceive : member.receive envelope = .ok after) :
    (net.run (moves ++ [.deliver client envelope])).clients client = some after := by
  rw [Net.run, final_concat, ← Net.run]
  simp [Network.step, hmember, take, hreceive]

omit [DecidableEq ρ] in
-- What is delivered is nothing to the operator's past, and a call is the next of it.
theorem Net.past_deliver (net : Net depth ρ) (moves : List (NetMove system ρ)) (client : ρ)
    (envelope : Envelope) : net.past (moves ++ [.deliver client envelope]) = net.past moves := by
  rw [Net.past, Network.calls_deliver, ← Net.past]

theorem Net.past_call (net : Net depth ρ) (moves : List (NetMove system ρ)) (call : Call system) :
    net.past (moves ++ [.call call]) =
      net.past moves ++ [Runs.event (AgoraState.step system) (net.run moves).server call] := by
  have hserver : (net.run moves).server =
      final (AgoraState.step system) net.server (Network.calls moves) := Network.server_final moves
  rw [Net.past, Network.calls_call, events_concat, hserver, ← Net.past]

theorem Buffered.of_append {earlier later : History system}
    (hbuffered : Buffered (earlier ++ later)) : Buffered earlier :=
  ⟨fun event hevent => hbuffered.addressed event (List.mem_append_left _ hevent),
    fun event hevent => hbuffered.body event (List.mem_append_left _ hevent)⟩

omit [DecidableEq ρ] in
theorem Net.past_append (net : Net depth ρ) (earlier later : List (NetMove system ρ)) :
    ∃ rest, net.past (earlier ++ later) = net.past earlier ++ rest := by
  unfold Net.past Network.calls
  rw [List.filterMap_append, events_append]
  exact ⟨_, rfl⟩

theorem Joins.synced (hjoins : Joins created member) :
    Synced created.statementKey created.agora ([] : History system) member := by
  obtain ⟨keys, entropy, epochSeed, policyClass, epoch, position, enrolled, henroll, rfl⟩ := hjoins
  obtain ⟨new, _, _, _, hroll, hagora, _, _, _, huntouched⟩ := enroll_ok henroll
  rw [(roll_ok hroll).1]
  constructor
  · exact hagora
  · rfl
  · exact .inl (huntouched.of_host _ _ _)
  · simp [huntouched.tagKeys]
  · simp [huntouched.tagKeys, huntouched.epoch]
  · simp [huntouched.tagKeys]

-- A new host is at home, its cursor at the epoch it was certified for.
theorem Joins.home {operator : AgoraState depth} (hjoins : Joins operator member) :
    Home operator member := by
  obtain ⟨keys, entropy, epochSeed, policyClass, epoch, position, enrolled, henroll, rfl⟩ := hjoins
  obtain ⟨new, _, _, _, hroll, hagora, _, _, _, huntouched⟩ := enroll_ok henroll
  have hcursor := roll_cursor hroll
  rw [(roll_ok hroll).1] at hcursor ⊢
  refine ⟨hagora, rfl, epoch, hcursor, ?_⟩
  intro last hlast
  cases huntouched.epoch.symm.trans hlast

-- What every host joins with, more history does not take away and each delivery keeps, every host
-- of every run has.
theorem members_run {motive : ρ → History system → Member depth → Prop}
    (hstart : ∀ client member, net.clients client = some member → motive client [] member)
    (hmore : ∀ client past later member, motive client past member →
      motive client (past ++ later) member)
    (hreceive : ∀ earlier client envelope later member after,
      moves = earlier ++ .deliver client envelope :: later →
        (net.run earlier).clients client = some member →
          motive client (net.past earlier) member → member.receive envelope = .ok after →
            motive client (net.past earlier) after) :
    ∀ client member, (net.run moves).clients client = some member →
      motive client (net.past moves) member := by
  refine Network.clients_follow (motive := fun client past (host : Option (Member depth)) =>
    ∀ member, host = some member → motive client past member) hstart ?_ ?_
  · intro client past later host hhost member hmember
    exact hmore client past later member (hhost member hmember)
  · intro earlier client envelope later hmoves hheld after hafter
    change ∀ member, (net.run earlier).clients client = some member → _ at hheld
    change (take ((net.run earlier).clients client) envelope).2 = some after at hafter
    cases hclient : (net.run earlier).clients client with
    | none =>
        rw [hclient] at hafter
        cases hafter
    | some member =>
        rw [hclient] at hafter
        rcases take_eq_some hafter with htaken | rfl
        · exact hreceive earlier client envelope later member after hmoves hclient
            (hheld member hclient) htaken
        · exact hheld _ hclient

-- What does not depend on the operator's past needs no more than the delivery.
theorem kept_run {motive : ρ → Member depth → Prop}
    (hstart : ∀ client member, net.clients client = some member → motive client member)
    (hreceive : ∀ client member envelope after, motive client member →
      member.receive envelope = .ok after → motive client after) :
    ∀ client member, (net.run moves).clients client = some member → motive client member := by
  refine members_run (motive := fun client (_ : History system) => motive client) hstart ?_ ?_
  · intro client past later member hmember
    exact hmember
  · intro earlier client envelope later member after _ _ hmember htaken
    exact hreceive client member envelope after hmember htaken

theorem synced_run {founding : Founding} {tagSecret statementEntropy : Bytes 32}
    {logSeed : Option (Bytes 32)} (hdepth : depth < 64) (hopens : Inbox.OpenAfterSeal)
    (hcreate : AgoraState.create founding tagSecret statementEntropy logSeed = .ok net.server)
    (hjoins : ∀ client member, net.clients client = some member → Joins net.server member)
    (hsane : net.Sane moves) : ∀ client member, (net.run moves).clients client = some member →
      Synced net.server.statementKey net.server.agora (net.past moves) member := by
  have hsound := (AgoraState.fresh_of_create hcreate).sound
  refine members_run (motive := fun _ past member =>
    Synced net.server.statementKey net.server.agora past member) ?_ ?_ ?_
  · intro client member hmember
    exact (hjoins client member hmember).synced
  · intro client past later member hsynced
    exact hsynced.append later
  · intro earlier client envelope later member after hmoves hmember hsynced hreceive
    obtain ⟨rest, hpast⟩ := net.past_append earlier (.deliver client envelope :: later)
    have hbuffered := hsane.buffered
    rw [hmoves, hpast] at hbuffered
    exact hsynced.receive (hsane.authentic earlier client envelope later member hmoves hmember)
      hbuffered.of_append (net.execution earlier) hsound hdepth hopens hreceive

-- What a host takes adds to its tag keys, and drops none.
theorem tagKeys_receive (hreceive : member.receive envelope = .ok after) :
    ∃ key, after.tagKeys = member.tagKeys ++ [(envelope.epoch, key)] := by
  obtain ⟨own, path, view, classRoot, equipped, _, hequipped, hroll⟩ := receive_eq_ok.1 hreceive
  rw [operate_storeTagKey, Except.ok.injEq] at hequipped
  subst hequipped
  rw [(roll_ok hroll).1]
  exact ⟨view.tagKey, rfl⟩

theorem tagKeys_run {client : ρ} (hmember : (net.run moves).clients client = some member)
    {earlier : Member depth} (hearlier : net.clients client = some earlier) :
    earlier.tagKeys <+: member.tagKeys := by
  have hkept : ∀ client member, (net.run moves).clients client = some member →
      ∀ earlier, net.clients client = some earlier → earlier.tagKeys <+: member.tagKeys := by
    refine kept_run (motive := fun client member =>
      ∀ earlier, net.clients client = some earlier → earlier.tagKeys <+: member.tagKeys) ?_ ?_
    · intro client member hmember earlier hearlier
      obtain rfl := Option.some.inj (hmember.symm.trans hearlier)
      exact List.prefix_refl _
    · intro client member envelope after hgrown hreceive earlier hearlier
      obtain ⟨key, htagKeys⟩ := tagKeys_receive hreceive
      rw [htagKeys]
      exact (hgrown earlier hearlier).trans (List.prefix_append _ _)
  exact hkept client member hmember earlier hearlier

-- The epochs a client followed in a run: those it was at after some part of it.
def Net.Followed (net : Net depth ρ) (moves : List (NetMove system ρ)) (client : ρ)
    (epoch : Epoch) : Prop :=
  ∃ earlier later member, moves = earlier ++ later ∧
    (net.run earlier).clients client = some member ∧ member.epoch = some epoch

theorem Net.Sane.of_append {earlier later : List (NetMove system ρ)}
    (hsane : net.Sane (earlier ++ later)) : net.Sane earlier where
  buffered := by
    obtain ⟨rest, hpast⟩ := net.past_append earlier later
    have hbuffered := hsane.buffered
    rw [hpast] at hbuffered
    exact hbuffered.of_append
  authentic := by
    intro first client envelope rest member hmoves
    exact hsane.authentic first client envelope (rest ++ later) member (by rw [hmoves]; simp)

omit [Primitives] [DecidableEq ρ] in
-- A move of a run is its last, or one of those before.
theorem split_concat {earlier later : List (NetMove system ρ)} {last move : NetMove system ρ}
    (hmoves : moves ++ [last] = earlier ++ move :: later) :
    earlier = moves ∧ move = last ∨ ∃ rest, moves = earlier ++ move :: rest := by
  rcases List.eq_nil_or_concat later with rfl | ⟨rest, final, rfl⟩
  · obtain ⟨hearlier, hlast⟩ := List.append_inj' hmoves rfl
    exact .inl ⟨hearlier.symm, (List.singleton_inj.1 hlast).symm⟩
  · rw [List.concat_eq_append, ← List.cons_append, ← List.append_assoc] at hmoves
    exact .inr ⟨rest, (List.append_inj' hmoves rfl).1⟩

-- A run is sane that grows by calls whose envelopes are buffers, and by authentic deliveries.
theorem Net.Sane.call (hsane : net.Sane moves) {call : Call system}
    (hbuffered : Buffered (net.past (moves ++ [.call call]))) :
    net.Sane (moves ++ [.call call]) where
  buffered := hbuffered
  authentic := by
    intro earlier client envelope later member hmoves
    rcases split_concat hmoves with ⟨_, hlast⟩ | ⟨rest, hearlier⟩
    · cases hlast
    · exact hsane.authentic earlier client envelope rest member hearlier

theorem Net.Sane.deliver (hsane : net.Sane moves) {client : ρ}
    (hauthentic : ∀ member, (net.run moves).clients client = some member →
      Authentic net.server.statementKey (net.past moves) member envelope) :
    net.Sane (moves ++ [.deliver client envelope]) where
  buffered := by
    rw [net.past_deliver]
    exact hsane.buffered
  authentic := by
    intro earlier other delivered later member hmoves
    rcases split_concat hmoves with ⟨rfl, hlast⟩ | ⟨rest, hearlier⟩
    · cases hlast
      exact hauthentic member
    · exact hsane.authentic earlier other delivered rest member hearlier

-- The key of an epoch a client followed is still the operator's, and still in the store.
theorem Synced.followed {client : ρ} {epoch : Epoch}
    (hsynced : Synced statementKey agora (net.past moves) member)
    (hearlier : ∀ earlier later, moves = earlier ++ later → ∀ past,
      (net.run earlier).clients client = some past →
        past.tagKeys.getLast?.map Prod.fst = past.epoch)
    (hmember : (net.run moves).clients client = some member)
    (hfollowed : net.Followed moves client epoch) :
    ∃ event ∈ net.past moves, Serves event ∧ event.after.epoch = epoch ∧
      (epoch, event.after.tagKeyNow) ∈ member.tagKeys ∧
      member.store (agora, .TagKey epoch) = some event.after.tagKeyNow.expose.toList := by
  obtain ⟨earlier, later, past, hmoves, hpast, hepoch⟩ := hfollowed
  have hnewest := hearlier earlier later hmoves past hpast
  rw [hepoch, Option.map_eq_some_iff] at hnewest
  obtain ⟨keyed, hlast, rfl⟩ := hnewest
  have hafter : ((net.run earlier).run later).clients client = some member := by
    rw [← hmember, hmoves, Net.run, Net.run, Net.run, final_append]
  have hkeyed := (tagKeys_run hafter hpast).subset (List.mem_of_getLast? hlast)
  obtain ⟨⟨event, hevent, hserves, hkey⟩, hstored⟩ := hsynced.keyed keyed hkeyed
  subst hkey
  exact ⟨event, hevent, hserves, rfl, hkeyed, hstored⟩

-- In every run of an operator and its members, whatever the network delivers, to whom and in
-- which order: a member holds nothing yet, or exactly the operator's view of one epoch it served;
-- for every epoch it followed, the operator's tag key is among its own and in its store; the
-- operator still records its epoch's roots as it holds them; and two members at one epoch agree.
theorem members_follow_the_operator {founding : Founding} {tagSecret statementEntropy : Bytes 32}
    {logSeed : Option (Bytes 32)} (hdepth : depth < 64) (hopens : Inbox.OpenAfterSeal)
    (hcreate : AgoraState.create founding tagSecret statementEntropy logSeed = .ok net.server)
    (hjoins : ∀ client member, net.clients client = some member → Joins net.server member)
    (hsane : net.Sane moves) :
    (∀ client member, (net.run moves).clients client = some member →
      Synced net.server.statementKey net.server.agora (net.past moves) member ∧
      (∀ epoch, net.Followed moves client epoch →
        ∃ event ∈ net.past moves, Serves event ∧ event.after.epoch = epoch ∧
          (epoch, event.after.tagKeyNow) ∈ member.tagKeys ∧
          member.store (net.server.agora, .TagKey epoch) =
            some event.after.tagKeyNow.expose.toList) ∧
      ∀ epoch, member.epoch = some epoch → epoch.get ≤ (net.run moves).server.epoch.get ∧
        ∃ roots, member.roots = some roots ∧
          (net.run moves).server.rootsIn epoch member.policyClass = .ok roots) ∧
    ∀ client other member peer epoch, (net.run moves).clients client = some member →
      (net.run moves).clients other = some peer → member.epoch = some epoch →
        peer.epoch = some epoch → Agrees member peer := by
  have hsound := (AgoraState.fresh_of_create hcreate).sound
  have hexecution := net.execution moves
  have hsynced := synced_run hdepth hopens hcreate hjoins hsane
  -- A member at an epoch follows a state that served it.
  have hcurrent : ∀ client member epoch, (net.run moves).clients client = some member →
      member.epoch = some epoch → ∃ event ∈ net.past moves, Serves event ∧
        Follows member event.after ∧ event.after.epoch = epoch := by
    intro client member epoch hmember hepoch
    rcases (hsynced client member hmember).current with
      huntouched | ⟨event, hevent, hserves, hfollows⟩
    · cases huntouched.epoch.symm.trans hepoch
    · exact ⟨event, hevent, hserves, hfollows, Option.some.inj (hfollows.epoch.symm.trans hepoch)⟩
  refine ⟨?_, ?_⟩
  · intro client member hmember
    refine ⟨hsynced client member hmember, ?_, ?_⟩
    · intro epoch hfollowed
      refine (hsynced client member hmember).followed ?_ hmember hfollowed
      intro earlier later hmoves past hpast
      rw [hmoves] at hsane
      exact (synced_run hdepth hopens hcreate hjoins hsane.of_append client past hpast).newest
    intro epoch hepoch
    obtain ⟨event, hevent, _, hfollows, rfl⟩ := hcurrent client member epoch hmember hepoch
    exact hfollows.recorded hexecution hsound hevent
  · intro client other member peer epoch hmember hpeer hepoch hsame
    obtain ⟨event, hevent, hserves, hfollows, _⟩ := hcurrent client member epoch hmember hepoch
    obtain ⟨later, hlater, hserved, hfollowed, _⟩ := hcurrent other peer epoch hpeer hsame
    exact hfollows.agrees hfollowed (hepoch.trans hsame.symm) hexecution hsound hevent hlater
      hserves hserved

end Runs

end Nymora.Protocol.Member

namespace Nymora.Protocol.Member.Sample

open Nymora.Core
open Nymora.Crypto
open Nymora.Accumulator
open Nymora.Circuits
open Nymora.Ports
open Operator
open Credential
open Operator.AgoraState (HandsOut History Serves eq_ok_get)
open scoped Nymora.Crypto.Reference

def agora : AgoraId := .fromBytes (Bytes.replicate 32 6)

def voters : PolicyClass := .fromBytes (Bytes.replicate 32 1)

def genesis : Epoch := .new 1

def keys : SoftwareKeyStore := ⟨Bytes.replicate 32 0x5a⟩

def entropy : Credential.CredentialEntropy :=
  ⟨Bytes.replicate 32 1, Bytes.replicate 32 2, Bytes.replicate 32 3⟩

def epochSeed (epoch : Epoch) : Credential.FreshEntropy :=
  Bytes.replicate 32 (0x5a + UInt8.ofNat epoch.get)

theorem enrolls : (enroll keys entropy epochSeed agora voters genesis :
    Except Stop (Member 2)).toOption.isSome := by
  decide +kernel

def enrolled : Member 2 :=
  (enroll keys entropy epochSeed agora voters genesis).toOption.get enrolls

-- A founder that vouches for its own class.
def founding : Founding where
  agora := agora
  genesis := genesis
  founder := enrolled.leaf
  classes := [(voters, ⟨voters, 1⟩)]
  founderClasses := [voters]
  founderInbox := enrolled.inbox

theorem founds : (AgoraState.create founding (Bytes.replicate 32 7) (Bytes.replicate 32 8) none :
    Except _ (AgoraState 2)).toOption.isSome := by
  decide +kernel

def operator : AgoraState 2 :=
  (AgoraState.create founding (Bytes.replicate 32 7) (Bytes.replicate 32 8) none).toOption.get
    founds

def founder : Member 2 := { enrolled with statementKey := some operator.statementKey }

def net : Net 2 Unit := ⟨operator, fun _ => some founder⟩

-- The founder as enrolled, beside the operator it founded.
theorem founding_starts : (founder.agora = agora ∧ founder.policyClass = voters ∧
      founder.epoch = none ∧ (founder.stored (loadInboxSecret agora)).toOption.isSome ∧
      founder.store (agora, .EpochCursor) = some genesis.toLeBytes) ∧
    operator.dissolved = false ∧ operator.agora = agora ∧ operator.epoch = genesis := by
  decide +kernel

theorem operator_live : operator.dissolved = false := founding_starts.2.1

theorem opens_inbox : (founder.stored (loadInboxSecret agora)).toOption.isSome :=
  founding_starts.1.2.2.2.1

def inboxSecret : InboxSecretKey :=
  (founder.stored (loadInboxSecret agora)).toOption.get opens_inbox

theorem founder_home : founder.agora = agora := founding_starts.1.1

theorem operator_home : operator.agora = agora := founding_starts.2.2.1

theorem founder_opens : founder.stored (loadInboxSecret founder.agora) = .ok inboxSecret := by
  rw [founder_home]
  exact eq_ok_get opens_inbox

-- The operator a boundary later.
def advanced : AgoraState 2 := (AgoraState.step (StubProver 2) operator .advanceEpoch).2

-- What a state delivers that serves the founder alone: its leaf is the first of its class, its
-- inbox key the live one, and its tag the only one.
abbrev DeliversAlone (served : AgoraState 2) : Prop :=
  ((served.classes[voters]?.bind fun entry => entry.positions[founder.leaf]?) = some 0 ∧
      served.inboxLive founder.leaf = some (Inbox.inboxPublicKey inboxSecret) ∧
      (Inbox.agree served.ephemeralSecretNow (Inbox.inboxPublicKey inboxSecret)).isSome ∧
      Inbox.agree inboxSecret (Inbox.inboxPublicKey served.ephemeralSecretNow) =
        Inbox.agree served.ephemeralSecretNow (Inbox.inboxPublicKey inboxSecret)) ∧
    served.sealInputs .InboxTag = (founder.tagInput served).toList ∧
      (served.envelopeNow.ciphertexts.map Ciphertext.tag).Nodup ∧
      (served.envelopeNow.body.length < 2 ^ 64 ∧
        (∀ ciphertext ∈ served.envelopeNow.ciphertexts, ciphertext.bytes.length < 2 ^ 64) ∧
        ∀ head ∈ served.envelopeNow.head, head.sequence < 2 ^ 64) ∧
      served.bodyNow.encode.length < 2 ^ 64

-- Both states deliver to the founder, and all they sign is signed apart.
theorem delivery_starts : (DeliversAlone operator ∧ DeliversAlone advanced) ∧
    (AgoraState.handsEnvelope (AgoraState.step (StubProver 2) operator .advanceEpoch).1 = true ∧
      advanced.agora = agora ∧ advanced.epoch = .new 2 ∧ advanced.dissolved = false) ∧
    ((advanced.envelopeNow.statementStreams agora ++
      operator.envelopeNow.statementStreams agora).map fun stream =>
        Field.fromId (Primitives.sha256 stream)).Nodup := by
  decide +kernel

theorem advanced_home : advanced.agora = agora := delivery_starts.2.1.2.1

theorem advanced_epoch : advanced.epoch = .new 2 := delivery_starts.2.1.2.2.1

theorem advanced_live : advanced.dissolved = false := delivery_starts.2.1.2.2.2

theorem served : AgoraState.step (StubProver 2) operator .currentEnvelope =
    (.ok (.envelope operator.envelopeNow), operator) :=
  AgoraState.step_currentEnvelope operator_live

-- A boundary hands out the envelope of the state it leaves.
theorem turned : AgoraState.step (StubProver 2) operator .advanceEpoch =
    (.ok (.envelope advanced.envelopeNow), advanced) :=
  AgoraState.step_advanceEpoch delivery_starts.2.1.1

section Delivering

variable {served : AgoraState 2} {member : Member 2}

theorem tagInput_alone (hsame : SameHost founder member) :
    member.tagInput served = founder.tagInput served := by
  rw [tagInput, tagInput, hsame.inboxSecret _ founder_opens, founder_opens, hsame.policyClass]

theorem distinguished_alone (hdelivers : DeliversAlone served)
    (hsame : SameHost founder member) : Distinguished member served := by
  intro left hleft right hright _
  have honly : ∀ input, (input ∈ served.sealInputs .InboxTag ∨
      member.tagInput served = some input) → founder.tagInput served = some input := by
    rintro input (hmem | hown)
    · rw [hdelivers.2.1] at hmem
      exact Option.mem_toList.1 hmem
    · rwa [← tagInput_alone hsame]
  exact Option.some.inj ((honly left hleft).symm.trans (honly right hright))

theorem reaches_alone (hdelivers : DeliversAlone served) (hsame : SameHost founder member)
    (hbehind : ∀ last ∈ member.epoch, last.get < served.epoch.get)
    (hwithin : ∀ first, CursorIs member.agora member.store (some first) →
      checkedReach (some first) served.epoch = .ok ()) :
    Reaches served member inboxSecret 0 where
  behind := hbehind
  within := hwithin
  stored := hsame.inboxSecret _ founder_opens
  recipient := by
    obtain ⟨⟨hposition, hlive, hagrees, _⟩, _⟩ := hdelivers
    obtain ⟨entry, hentry, hfound⟩ := Option.bind_eq_some_iff.1 hposition
    rw [hsame.policyClass, hsame.leaf, founding_starts.1.2.1]
    exact ⟨⟨entry, hentry, hfound⟩, hlive, hagrees⟩
  symmetric := hdelivers.1.2.2.2
  distinct := hdelivers.2.2.1
  distinguished := distinguished_alone hdelivers hsame
  bounded := hdelivers.2.2.2.2

theorem addressed_alone (hdelivers : DeliversAlone served) : served.envelopeNow.Addressed := by
  obtain ⟨_, _, _, ⟨hbody, hciphertexts, hhead⟩, _⟩ := hdelivers
  exact ⟨hbody, hciphertexts, hhead⟩

end Delivering

def handing : AgoraState.Event (StubProver 2) :=
  ⟨operator, .currentEnvelope, .ok (.envelope operator.envelopeNow), operator⟩

def turning : AgoraState.Event (StubProver 2) :=
  ⟨operator, .advanceEpoch, .ok (.envelope advanced.envelopeNow), advanced⟩

-- Either event hands out what the state it leaves serves.
theorem hands_only {event : AgoraState.Event (StubProver 2)}
    (hevent : event ∈ [handing, turning]) :
    DeliversAlone event.after ∧ event.after.agora = agora ∧
      (event.after = operator ∨ event.after = advanced) ∧
      HandsOut event event.after.envelopeNow ∧
      ∀ handed, HandsOut event handed → handed = event.after.envelopeNow := by
  rcases List.mem_pair.1 hevent with rfl | rfl
  · refine ⟨delivery_starts.1.1, operator_home, .inl rfl, ⟨_, rfl, rfl⟩, ?_⟩
    rintro handed ⟨reply, hreply, hhanded⟩
    cases hreply
    exact (Option.some.inj hhanded).symm
  · refine ⟨delivery_starts.1.2, advanced_home, .inr rfl, ⟨_, rfl, rfl⟩, ?_⟩
    rintro handed ⟨reply, hreply, hhanded⟩
    cases hreply
    exact (Option.some.inj hhanded).symm

theorem streams_apart : SignedApart (advanced.envelopeNow.statementStreams agora ++
    operator.envelopeNow.statementStreams agora) :=
  signedApart_of_nodup delivery_starts.2.2

-- What one of the two events handed out is authentic, delivered after them to the founder.
theorem founder_authentic (event : AgoraState.Event (StubProver 2))
    {history : History (StubProver 2)} (hpast : history ⊆ [handing, turning])
    (hevent : event ∈ history) {member : Member 2} (hsame : SameHost founder member) :
    Authentic operator.statementKey history member event.after.envelopeNow := by
  have hagora : member.agora = agora := hsame.agora.trans founder_home
  obtain ⟨hdelivers, hhome, hstate, hhands, _⟩ := hands_only (hpast hevent)
  constructor
  · intro _
    refine ⟨event, hevent, _, hhands, ?_⟩
    rw [hagora, hhome]
  · intro other hother handed hhanded
    obtain ⟨_, hhere, hreached, _, honly⟩ := hands_only (hpast hother)
    rw [honly handed hhanded, hagora, hhere]
    refine streams_apart.of_subset ?_
    rcases hstate with hstate | hstate <;> rcases hreached with hreached | hreached <;>
      rw [hstate, hreached] <;> simp
  · intro other hother _
    exact distinguished_alone (hands_only (hpast hother)).1 hsame
  · exact addressed_alone hdelivers

theorem buffered {history : History (StubProver 2)} (hpast : history ⊆ [handing, turning]) :
    Buffered history := by
  constructor
  · intro event hevent handed hhanded
    obtain ⟨hdelivers, _, _, _, honly⟩ := hands_only (hpast hevent)
    rw [honly handed hhanded]
    exact addressed_alone hdelivers
  · intro event hevent _
    exact (hands_only (hpast hevent)).1.2.2.2.2

theorem joins : ∀ client member, net.clients client = some member → Joins net.server member := by
  intro client member hmember
  obtain rfl : founder = member := Option.some.inj hmember
  exact ⟨keys, entropy, epochSeed, voters, genesis, _, enrolled, eq_ok_get enrolls, rfl⟩

theorem sameHost_founder : SameHost founder founder := ⟨rfl, rfl, rfl, fun _ hsecret => hsecret⟩

theorem founder_reached : Reaches operator founder inboxSecret 0 := by
  apply reaches_alone delivery_starts.1.1 sameHost_founder
  · rw [founding_starts.1.2.2.1]
    exact fun _ hlast => absurd hlast (by simp)
  · have hcursor : CursorIs agora founder.store (some genesis) := founding_starts.1.2.2.2.2
    rw [founder_home, founding_starts.2.2.2]
    intro first hfirst
    rw [hfirst.unique hcursor]
    rfl

theorem net_founder : net.clients () = some founder := rfl

theorem operator_sound : operator.Sound := (AgoraState.fresh_of_create (eq_ok_get founds)).sound

theorem founder_homed : Home operator founder := (joins () founder net_founder).home

-- So the current envelope equips the founder.
theorem founder_receives : ∃ after, founder.receive operator.envelopeNow = .ok after ∧
    Follows after operator ∧ after.position = 0 ∧ after.leaf = founder.leaf :=
  founder_reached.receive founder_homed rfl rfl operator_sound operator_live (by decide)
    (by decide) Reference.openAfterSeal Reference.signature_correct
    Plonk.Evaluate.Sample.pointEncoding

theorem equipped_isSome : (founder.receive operator.envelopeNow).toOption.isSome := by
  obtain ⟨after, hreceive, _⟩ := founder_receives
  rw [hreceive]
  rfl

def equipped : Member 2 := (founder.receive operator.envelopeNow).toOption.get equipped_isSome

theorem founder_equipped : founder.receive operator.envelopeNow = .ok equipped :=
  eq_ok_get equipped_isSome

theorem equipped_current : equipped.epoch = some operator.epoch := by
  obtain ⟨after, hreceive, hfollows, _⟩ := founder_receives
  rw [← Except.ok.inj (hreceive.symm.trans founder_equipped)]
  exact hfollows.epoch

-- And the next one takes it to the next epoch.
theorem equipped_reached : Reaches advanced equipped inboxSecret 0 := by
  have hcurrent : equipped.epoch = some genesis := by
    rw [equipped_current, founding_starts.2.2.2]
  apply reaches_alone delivery_starts.1.2 (sameHost_receive founder_equipped)
  · rw [hcurrent, advanced_epoch]
    intro last hlast
    rw [← Option.some.inj hlast]
    decide
  · obtain ⟨first, hcursor, hfirst⟩ := (founder_homed.receive founder_equipped).cursor
    rw [advanced_epoch]
    intro other hother
    rw [hother.unique hcursor, hfirst genesis hcurrent]
    rfl

theorem equipped_receives : ∃ after, equipped.receive advanced.envelopeNow = .ok after ∧
    after.epoch = some advanced.epoch := by
  have hexecution : AgoraState.Execution (StubProver 2) operator
      (Runs.events (AgoraState.step (StubProver 2)) operator [.advanceEpoch]) advanced :=
    ⟨_, rfl, rfl⟩
  obtain ⟨after, hreceive, hfollows, _⟩ := equipped_reached.receive
    (founder_homed.receive founder_equipped) (hexecution.agora operator_sound)
    (hexecution.statementKey operator_sound advanced_live) (hexecution.sound operator_sound)
    advanced_live (by decide) (by decide) Reference.openAfterSeal Reference.signature_correct
    Plonk.Evaluate.Sample.pointEncoding
  exact ⟨after, hreceive, hfollows.epoch⟩

-- The founder is equipped by the current envelope, genesis having no boundary, and takes the next.
def moves : List (NetMove (StubProver 2) Unit) :=
  [.call .currentEnvelope] ++ [.deliver () operator.envelopeNow]

def onward : List (NetMove (StubProver 2) Unit) :=
  moves ++ [.call .advanceEpoch] ++ [.deliver () advanced.envelopeNow]

theorem server_moves : (net.run moves).server = operator := by
  have hfinal : (net.run moves).server =
      Runs.final (AgoraState.step (StubProver 2)) net.server (Network.calls moves) :=
    Network.server_final moves
  have hcalls : Network.calls moves = [Call.currentEnvelope] := by
    simp [moves, Network.calls, Network.Move.call?]
  rw [hcalls, Runs.final_cons, Runs.final_nil, net, served] at hfinal
  exact hfinal

theorem past_calling :
    net.past ([.call .currentEnvelope] : List (NetMove (StubProver 2) Unit)) = [handing] := by
  have hpast := net.past_call [] (.currentEnvelope : Call (StubProver 2))
  rw [List.nil_append] at hpast
  rw [hpast]
  change [] ++ [Runs.event (AgoraState.step (StubProver 2)) operator .currentEnvelope] = _
  rw [Runs.event, served]
  rfl

theorem past_moves : net.past moves = [handing] := by
  rw [moves, net.past_deliver, past_calling]

theorem past_turning : net.past (moves ++ [.call .advanceEpoch]) = [handing, turning] := by
  rw [net.past_call, past_moves, server_moves, Runs.event, turned]
  rfl

theorem run_nil : net.run ([] : List (NetMove (StubProver 2) Unit)) = net := rfl

theorem run_calling :
    (net.run ([.call .currentEnvelope] : List (NetMove (StubProver 2) Unit))).clients () =
      some founder := by
  have hcalled := net.clients_call [] (.currentEnvelope : Call (StubProver 2))
  rw [run_nil, List.nil_append] at hcalled
  rw [hcalled, net_founder]

theorem run_moves : (net.run moves).clients () = some equipped :=
  Net.clients_deliver run_calling founder_equipped

theorem run_turning : (net.run (moves ++ [.call .advanceEpoch])).clients () = some equipped := by
  rw [net.clients_call, run_moves]

theorem calling_sane :
    net.Sane ([.call .currentEnvelope] : List (NetMove (StubProver 2) Unit)) where
  buffered := by
    rw [past_calling]
    exact buffered (by simp)
  authentic := by
    intro earlier client envelope later member hmoves
    cases earlier with
    | nil => cases hmoves
    | cons first earlier => simp at hmoves

theorem net_sane : net.Sane moves := by
  apply calling_sane.deliver
  intro member hmember
  rw [run_calling, Option.some_inj] at hmember
  rw [past_calling, ← hmember]
  exact founder_authentic handing (by simp) (by simp) sameHost_founder

theorem onward_sane : net.Sane onward := by
  have hturning : net.Sane (moves ++ [.call .advanceEpoch]) := by
    apply net_sane.call
    rw [past_turning]
    exact buffered (List.Subset.refl _)
  apply hturning.deliver
  intro member hmember
  rw [run_turning, Option.some_inj] at hmember
  rw [past_turning, ← hmember]
  exact founder_authentic turning (List.Subset.refl _) (by simp)
    (sameHost_receive founder_equipped)

-- Two epochs on, the founder is at the second with the key of the first still in its store.
theorem members_follow_the_operator_founder : ∃ member,
    (net.run onward).clients () = some member ∧ member.epoch = some advanced.epoch ∧
      Synced operator.statementKey operator.agora (net.past onward) member ∧
      ∃ event ∈ net.past onward, event.after.epoch = operator.epoch ∧
        (operator.epoch, event.after.tagKeyNow) ∈ member.tagKeys ∧
        member.store (operator.agora, .TagKey operator.epoch) =
          some event.after.tagKeyNow.expose.toList := by
  obtain ⟨member, hreceive, hepoch⟩ := equipped_receives
  have hrun : (net.run onward).clients () = some member :=
    Net.clients_deliver run_turning hreceive
  obtain ⟨hsynced, hfollowed, _⟩ := (members_follow_the_operator (by decide)
    Reference.openAfterSeal (eq_ok_get founds) joins onward_sane).1 () member hrun
  obtain ⟨event, hevent, _, hserved, hkeyed, hstored⟩ := hfollowed operator.epoch
    ⟨moves, [.call .advanceEpoch, .deliver () advanced.envelopeNow], equipped,
      List.append_assoc _ _ _, run_moves, equipped_current⟩
  exact ⟨member, hrun, hepoch, hsynced, event, hevent, hserved, hkeyed, hstored⟩

end Nymora.Protocol.Member.Sample
