import Nymora.Crypto.Hash.Theorems
import Nymora.Crypto.Reference
import Nymora.Protocol.LiveAuth

namespace Nymora.Crypto.LiveAuth

open Nymora.Core

-- What is hashed for a commitment, and for a context.
def commitmentParts (nonce blinding : Bytes NONCE_LEN) : List (List UInt8) :=
  [Domain.LiveAuthCommitment.tagBytes, nonce.toList, blinding.toList]

def contextParts (nonces : List (Bytes NONCE_LEN)) (channelMetadata : List UInt8) :
    List (List UInt8) :=
  Domain.LiveAuthContext.tagBytes :: LittleEndian.ofNat 8 nonces.length ::
    ((sortUnstable nonces).map Bytes.toList ++ [channelMetadata])

theorem perm_sortUnstable (nonces : List (Bytes NONCE_LEN)) : (sortUnstable nonces).Perm nonces :=
  List.perm_insertionSort _ nonces

theorem length_sortUnstable (nonces : List (Bytes NONCE_LEN)) :
    (sortUnstable nonces).length = nonces.length := (perm_sortUnstable nonces).length_eq

-- The order is total, so the sorted list says which nonces there are and nothing else.
theorem sortUnstable_eq_iff {left right : List (Bytes NONCE_LEN)} :
    sortUnstable left = sortUnstable right ↔ left.Perm right := by
  constructor
  · intro hsame
    exact (perm_sortUnstable left).symm.trans (hsame ▸ perm_sortUnstable right)
  · intro hperm
    have htotal : Std.Total fun left right : Bytes NONCE_LEN => (compare left right).isLE = true := by
      constructor
      intro first second
      by_cases hle : (compare first second).isLE
      · exact .inl hle
      · have hlt : compare second first = .lt := Std.OrientedCmp.lt_of_not_isLE (by simpa using hle)
        exact .inr (by rw [hlt]; rfl)
    have htrans : IsTrans (Bytes NONCE_LEN) fun left right => (compare left right).isLE = true :=
      ⟨fun _ _ _ => Std.TransOrd.isLE_trans⟩
    refine List.Perm.eq_of_pairwise ?_ (List.pairwise_insertionSort _ left)
      (List.pairwise_insertionSort _ right)
      ((perm_sortUnstable left).trans (hperm.trans (perm_sortUnstable right).symm))
    intro first second _ _ hle hge
    exact Std.LawfulEqCmp.eq_of_compare (Std.OrientedCmp.isLE_antisymm hle hge)

theorem commitmentParts_inj {nonce otherNonce blinding otherBlinding : Bytes NONCE_LEN}
    (hparts : commitmentParts nonce blinding = commitmentParts otherNonce otherBlinding) :
    nonce = otherNonce ∧ blinding = otherBlinding := by
  simp only [commitmentParts, List.cons.injEq, and_true, true_and, Bytes.toList_inj] at hparts
  exact hparts

theorem contextParts_inj {nonces others : List (Bytes NONCE_LEN)}
    {channelMetadata otherMetadata : List UInt8}
    (hparts : contextParts nonces channelMetadata = contextParts others otherMetadata) :
    nonces.Perm others ∧ channelMetadata = otherMetadata := by
  simp only [contextParts, List.cons.injEq, true_and] at hparts
  obtain ⟨hnonces, hmetadata⟩ := List.append_inj' hparts.2 rfl
  have hinjective : Function.Injective (Bytes.toList : Bytes NONCE_LEN → List UInt8) :=
    fun _ _ => Bytes.toList_inj.1
  exact ⟨sortUnstable_eq_iff.1 (List.map_injective_iff.2 hinjective hnonces),
    List.singleton_inj.1 hmetadata⟩

theorem fits_commitmentParts (nonce blinding : Bytes NONCE_LEN) :
    ∀ part ∈ commitmentParts nonce blinding, Framing.Fits 8 part := by
  simp only [commitmentParts, List.forall_mem_cons, Framing.Fits, Bytes.length_toList]
  exact ⟨by decide, by decide, by decide, List.forall_mem_nil _⟩

theorem fits_contextParts (nonces : List (Bytes NONCE_LEN)) {channelMetadata : List UInt8}
    (hfits : Framing.Fits 8 channelMetadata) :
    ∀ part ∈ contextParts nonces channelMetadata, Framing.Fits 8 part := by
  simp only [contextParts, List.forall_mem_cons, List.forall_mem_append, List.forall_mem_map,
    Framing.Fits, Bytes.length_toList, LittleEndian.length_ofNat]
  exact ⟨by decide, by decide, fun _ _ => by decide, hfits, List.forall_mem_nil _⟩

variable [Primitives]

theorem commitment_eq (nonce blinding : Bytes NONCE_LEN) : commitment nonce blinding =
    .fromBytes (Primitives.sha256 ((commitmentParts nonce blinding).flatMap framed)) := by
  simp [commitment, commitmentParts, ByteHasher.new, ByteHasher.finalize]

theorem context_eq (nonces : List (Bytes NONCE_LEN)) (channelMetadata : List UInt8) :
    context nonces channelMetadata =
      (.fromBytes (Primitives.sha256 ((contextParts nonces channelMetadata).flatMap framed)),
        sortUnstable nonces) := by
  have hfold : ∀ hasher : ByteHasher,
      (sortUnstable nonces).foldl (fun hasher nonce => hasher.absorb nonce.toList) hasher =
        ((sortUnstable nonces).map Bytes.toList).foldl ByteHasher.absorb hasher :=
    fun _ => List.foldl_map.symm
  simp only [context, contextParts, hfold, ByteHasher.finalize, ByteHasher.stream_absorb,
    ByteHasher.stream_foldl_absorb, ByteHasher.new, length_sortUnstable, List.flatMap_cons,
    List.flatMap_append, List.flatMap_nil, List.append_assoc, List.append_nil]

end Nymora.Crypto.LiveAuth

namespace Nymora.Protocol.LiveAuth

open Nymora.Core
open Nymora.Crypto
open Nymora.Crypto.LiveAuth (NONCE_LEN commitmentParts contextParts commitment_eq context_eq
  commitmentParts_inj contextParts_inj fits_commitmentParts fits_contextParts sortUnstable_eq_iff)
open Method

-- The loop of `lock` refuses exactly the rosters that name a commitment twice.
theorem repeats_eq_false {α : Type} [DecidableEq α] (items : List α) :
    (items.zipIdx.any fun (item, index) => (items.take index).contains item) = false ↔
      items.Nodup := by
  rw [List.any_eq_false, List.nodup_iff_pairwise_ne, List.pairwise_iff_getElem]
  constructor
  · intro hnone left right hleft hright hlt heq
    have hmem : (items[right], right) ∈ items.zipIdx :=
      List.mem_zipIdx_iff_getElem?.2 (List.getElem?_eq_getElem hright)
    apply hnone _ hmem
    simp only [List.contains_eq_mem, decide_eq_true_eq]
    rw [← heq]
    exact List.mem_take_iff_getElem.2 ⟨left, by omega, rfl⟩
  · rintro hdistinct ⟨item, index⟩ hmem hcontains
    obtain ⟨hindex, hitem⟩ := List.getElem?_eq_some_iff.1 (List.mem_zipIdx_iff_getElem?.1 hmem)
    simp only [List.contains_eq_mem, decide_eq_true_eq] at hcontains
    obtain ⟨earlier, hearlier, hsame⟩ := List.mem_take_iff_getElem.1 hcontains
    exact hdistinct earlier index (by omega) hindex (by omega) (hsame.trans hitem.symm)

section Steps

variable [Primitives] {contribution : Contribution} {roster : List SessionCommitment}
  {locked : Locked} {reveals : List Reveal} {channelMetadata : List UInt8}
  {scratch after : List (Bytes NONCE_LEN)} {session : Session}

def Reveal.commitment (reveal : Reveal) : SessionCommitment :=
  Crypto.LiveAuth.commitment reveal.nonce reveal.blinding

theorem lock_eq_ok : contribution.lock roster = .ok locked ↔ 2 ≤ roster.length ∧ roster.Nodup ∧
    locked.contribution = contribution ∧ locked.roster = roster ∧
      roster.idxOf? contribution.commitment = some locked.position := by
  rw [← repeats_eq_false]
  unfold Contribution.lock
  split
  · next hshort =>
      constructor
      · intro herror
        cases herror
      · intro hok
        omega
  · next hlong =>
      split
      · next hrepeats =>
          constructor
          · intro herror
            cases herror
          · rintro ⟨_, hdistinct, _⟩
            exact absurd (hrepeats.symm.trans hdistinct) (by decide)
      · next hdistinct =>
          cases roster.idxOf? contribution.commitment with
          | none => simp
          | some position =>
              obtain ⟨ours, theirs, place⟩ := locked
              simp only [Except.ok.injEq, Locked.mk.injEq, Option.some.injEq]
              have hfalse := Bool.eq_false_iff.2 hdistinct
              constructor
              · rintro ⟨rfl, rfl, rfl⟩
                exact ⟨by omega, hfalse, rfl, rfl, rfl⟩
              · rintro ⟨_, _, rfl, rfl, rfl⟩
                exact ⟨rfl, rfl, rfl⟩

-- What one turn of the loop asks of a reveal.
def Locked.Accepts (locked : Locked) (item : (Reveal × SessionCommitment) × Nat) : Prop :=
  item.1.1.commitment = item.1.2 ∧
    (item.2 = locked.position → item.1.1.nonce = locked.contribution.nonce)

theorem accept_eq_ok {item : (Reveal × SessionCommitment) × Nat} {result : Unit} :
    locked.accept item scratch = .ok result after ↔
      locked.Accepts item ∧ after = scratch.set item.2 item.1.1.nonce := by
  obtain ⟨⟨reveal, committed⟩, index⟩ := item
  unfold Locked.accept Locked.Accepts
  rw [ensure_bind_eq_ok, ensure_bind_eq_ok, modify_eq_ok, and_assoc]
  rfl

-- The loop writes the nonces over the slots it passes, and leaves the rest of the buffer.
theorem accept_loop {items : List (Reveal × SessionCommitment)} {start : Nat}
    (hroom : start + items.length ≤ scratch.length) :
    Loop (fun item before next => locked.accept item before = .ok ⟨⟩ next) (items.zipIdx start)
        scratch after ↔
      (∀ item ∈ items.zipIdx start, locked.Accepts item) ∧
        after = scratch.take start ++ items.map (·.1.nonce) ++
          scratch.drop (start + items.length) := by
  induction items generalizing start scratch with
  | nil => simp
  | cons item items ih =>
      rw [List.length_cons] at hroom
      have hset : (scratch.set start item.1.nonce).take (start + 1) =
          scratch.take start ++ [item.1.nonce] := by
        rw [List.take_succ_eq_append_getElem (by rw [List.length_set]; omega),
          List.take_set_of_le (Nat.le_refl _), List.getElem_set_self]
      have hrest : (scratch.set start item.1.nonce).drop (start + 1 + items.length) =
          scratch.drop (start + (items.length + 1)) := by
        rw [List.drop_set_of_lt (by omega)]
        congr 1
        omega
      have htail := @ih (scratch.set start item.1.nonce) (start + 1)
        (by rw [List.length_set]; omega)
      rw [hset, hrest] at htail
      rw [List.zipIdx_cons, Loop.cons_iff, List.forall_mem_cons, List.map_cons, List.length_cons]
      constructor
      · rintro ⟨middle, hitem, hloop⟩
        obtain ⟨haccepts, rfl⟩ := accept_eq_ok.1 hitem
        obtain ⟨hall, rfl⟩ := htail.1 hloop
        exact ⟨⟨haccepts, hall⟩, by simp⟩
      · rintro ⟨⟨haccepts, hall⟩, rfl⟩
        exact ⟨_, accept_eq_ok.2 ⟨haccepts, rfl⟩, htail.2 ⟨hall, by simp⟩⟩

theorem finish_eq_ok : locked.finish reveals channelMetadata scratch = .ok session after ↔
    reveals.length = locked.roster.length ∧ reveals.length ≤ scratch.length ∧
      (∀ item ∈ (reveals.zip locked.roster).zipIdx, locked.Accepts item) ∧
      session.context = (Crypto.LiveAuth.context (reveals.map Reveal.nonce) channelMetadata).1 ∧
      after = (Crypto.LiveAuth.context (reveals.map Reveal.nonce) channelMetadata).2 ++
        scratch.drop reveals.length := by
  unfold Locked.finish
  rw [ensure_bind_eq_ok]
  refine and_congr_right fun hlength => ?_
  rw [get_bind, ensure_bind_eq_ok]
  refine and_congr_right fun hroom => ?_
  have hzip : (reveals.zip locked.roster).length = reveals.length := by
    rw [List.length_zip]
    omega
  have hnonces : (reveals.zip locked.roster).map (·.1.nonce) = reveals.map Reveal.nonce := by
    have hfst : (reveals.zip locked.roster).map Prod.fst = reveals :=
      List.map_fst_zip (by omega)
    conv_rhs => rw [← hfst, List.map_map]
    rfl
  have hloop : ∀ written, Loop (fun item before next => locked.accept item before = .ok ⟨⟩ next)
      (reveals.zip locked.roster).zipIdx scratch written ↔
        (∀ item ∈ (reveals.zip locked.roster).zipIdx, locked.Accepts item) ∧
          written = reveals.map Reveal.nonce ++ scratch.drop reveals.length := by
    intro written
    rw [accept_loop (by omega), hnonces, hzip, List.take_zero, List.nil_append, Nat.zero_add]
  have hhead : (reveals.map Reveal.nonce ++ scratch.drop reveals.length).take reveals.length =
      reveals.map Reveal.nonce := List.take_left' (List.length_map ..)
  have htail : (reveals.map Reveal.nonce ++ scratch.drop reveals.length).drop reveals.length =
      scratch.drop reveals.length := List.drop_left' (List.length_map ..)
  rw [List.forM_eq_forM, bind_eq_ok]
  simp only [forM_eq_ok, hloop, get_bind, set_bind, pure_eq_ok]
  constructor
  · rintro ⟨_, written, ⟨hall, rfl⟩, rfl, rfl⟩
    rw [hhead, htail]
    exact ⟨hall, rfl, rfl⟩
  · rintro ⟨hall, hcontext, rfl⟩
    refine ⟨⟨⟩, _, ⟨hall, rfl⟩, ?_, ?_⟩
    · rw [hhead, ← hcontext]
    · rw [hhead, htail]

-- A session that finished was opened commitment by commitment, this participant's among them.
theorem opened_of_finish (hlock : contribution.lock roster = .ok locked)
    (hfinish : locked.finish reveals channelMetadata scratch = .ok session after) :
    roster = reveals.map Reveal.commitment ∧
      contribution.nonce ∈ reveals.map Reveal.nonce := by
  obtain ⟨_, _, rfl, rfl, hposition⟩ := lock_eq_ok.1 hlock
  obtain ⟨hlength, _, haccepts, _, _⟩ := finish_eq_ok.1 hfinish
  have hopens : (reveals.zip locked.roster).map (·.1.commitment) =
      (reveals.zip locked.roster).map Prod.snd := by
    apply List.map_congr_left
    intro pair hpair
    obtain ⟨index, hindex⟩ := List.getElem?_of_mem hpair
    exact (haccepts (pair, index) (List.mem_zipIdx_iff_getElem?.2 hindex)).1
  constructor
  · have hfst : (reveals.zip locked.roster).map Prod.fst = reveals := List.map_fst_zip (by omega)
    have hsnd : (reveals.zip locked.roster).map Prod.snd = locked.roster :=
      List.map_snd_zip (by omega)
    rw [hsnd] at hopens
    rw [← hopens]
    conv_rhs => rw [← hfst, List.map_map]
    rfl
  · obtain ⟨hplace, _⟩ := List.idxOf?_eq_some_iff.1 hposition
    have hreveal : locked.position < reveals.length := by omega
    have hpair : ((reveals[locked.position], locked.roster[locked.position]), locked.position) ∈
        (reveals.zip locked.roster).zipIdx := by
      rw [List.mem_zipIdx_iff_getElem?, List.getElem?_zip_eq_some]
      exact ⟨List.getElem?_eq_getElem hreveal, List.getElem?_eq_getElem hplace⟩
    rw [← (haccepts _ hpair).2 rfl]
    exact List.mem_map_of_mem (List.getElem_mem hreveal)

-- Participants who all hand over what they contributed finish, whatever the buffer held.
theorem honest_round {contributions : List Contribution} (hmem : contribution ∈ contributions)
    (htwo : 2 ≤ contributions.length)
    (hdistinct : (contributions.map Contribution.commitment).Nodup)
    (hroom : contributions.length ≤ scratch.length) :
    ∃ locked, contribution.lock (contributions.map Contribution.commitment) = .ok locked ∧
      ∃ session after, locked.finish (contributions.map fun other => ⟨other.nonce, other.blinding⟩)
        channelMetadata scratch = .ok session after := by
  obtain ⟨place, hplace, rfl⟩ := List.getElem_of_mem hmem
  have hfound : (contributions.map Contribution.commitment).idxOf?
      contributions[place].commitment = some place := by
    have hbound : place < (contributions.map Contribution.commitment).length := by
      simpa using hplace
    rw [List.idxOf?_eq_some_iff]
    refine ⟨hbound, by simp, ?_⟩
    intro earlier hlt hsame
    have hearlier : earlier < (contributions.map Contribution.commitment).length := by omega
    have heq : (contributions.map Contribution.commitment)[earlier] =
        (contributions.map Contribution.commitment)[place] := by simpa using hsame
    have hindex := hdistinct.getElem_inj_iff.1 heq
    omega
  refine ⟨⟨contributions[place], contributions.map Contribution.commitment, place⟩,
    lock_eq_ok.2 ⟨by simpa using htwo, hdistinct, rfl, rfl, hfound⟩, ⟨_⟩, _,
    finish_eq_ok.2 ⟨by simp, by simpa using hroom, ?_, rfl, rfl⟩⟩
  rintro ⟨⟨reveal, committed⟩, index⟩ hitem
  rw [List.mem_zipIdx_iff_getElem?, List.getElem?_zip_eq_some] at hitem
  obtain ⟨hreveal, hcommitted⟩ := hitem
  rw [List.getElem?_map, Option.map_eq_some_iff] at hreveal hcommitted
  obtain ⟨other, hother, rfl⟩ := hreveal
  obtain ⟨same, hsame, rfl⟩ := hcommitted
  obtain rfl := Option.some.inj (hother.symm.trans hsame)
  refine ⟨rfl, fun hindex => ?_⟩
  have hown : index = place := hindex
  rw [hown, List.getElem?_eq_getElem hplace] at hother
  exact congrArg Contribution.nonce (Option.some.inj hother).symm

end Steps

section Agreement

-- One participant of a round, with everything it is given; a slice is shorter than 2^64.
structure Participant where
  contribution : Contribution
  roster : List SessionCommitment
  reveals : List Reveal
  scratch : List (Bytes NONCE_LEN)
  channelMetadata : List UInt8
  fits : Framing.Fits 8 channelMetadata

namespace Participant

def nonces (participant : Participant) : List (Bytes NONCE_LEN) :=
  participant.reveals.map Reveal.nonce

-- What a participant feeds to the byte hash: every opening, and the context.
def streams (participant : Participant) : List (List UInt8) :=
  (participant.reveals.map fun reveal =>
    (commitmentParts reveal.nonce reveal.blinding).flatMap framed) ++
    [(contextParts participant.nonces participant.channelMetadata).flatMap framed]

theorem mem_streams_commitment {participant : Participant} {reveal : Reveal}
    (hmem : reveal ∈ participant.reveals) :
    (commitmentParts reveal.nonce reveal.blinding).flatMap framed ∈ participant.streams :=
  List.mem_append_left _ (List.mem_map_of_mem hmem)

theorem mem_streams_context (participant : Participant) :
    (contextParts participant.nonces participant.channelMetadata).flatMap framed ∈
      participant.streams :=
  List.mem_append_right _ List.mem_cons_self

variable [Primitives]

def Finishes (participant : Participant) (session : Session) : Prop :=
  ∃ locked after, participant.contribution.lock participant.roster = .ok locked ∧
    locked.finish participant.reveals participant.channelMetadata participant.scratch =
      .ok session after

end Participant

variable [Primitives] {first second : Participant} {one other : Session}

-- What a participant that finished was shown, and what it derived.
theorem Participant.Finishes.derives (hfinishes : first.Finishes one) :
    first.roster = first.reveals.map Reveal.commitment ∧
      first.contribution.nonce ∈ first.nonces ∧
      one.context = .fromBytes (Primitives.sha256
        ((contextParts first.nonces first.channelMetadata).flatMap framed)) := by
  obtain ⟨locked, after, hlock, hfinish⟩ := hfinishes
  obtain ⟨hopened, hown⟩ := opened_of_finish hlock hfinish
  obtain ⟨_, _, _, hcontext, _⟩ := finish_eq_ok.1 hfinish
  rw [context_eq] at hcontext
  exact ⟨hopened, hown, hcontext⟩

-- A commitment opens one way only, among the openings the hash was asked for.
theorem reveal_eq_of_commitment_eq
    (hfree : ByteHasher.CollisionFree (first.streams ++ second.streams)) {left right : Reveal}
    (hleft : left ∈ first.reveals ∨ left ∈ second.reveals)
    (hright : right ∈ first.reveals ∨ right ∈ second.reveals)
    (hsame : left.commitment = right.commitment) : left = right := by
  have hmem : ∀ reveal : Reveal, reveal ∈ first.reveals ∨ reveal ∈ second.reveals →
      (commitmentParts reveal.nonce reveal.blinding).flatMap framed ∈
        first.streams ++ second.streams := by
    intro reveal hreveal
    rcases hreveal with hfirst | hsecond
    · exact List.mem_append_left _ (Participant.mem_streams_commitment hfirst)
    · exact List.mem_append_right _ (Participant.mem_streams_commitment hsecond)
  rw [Reveal.commitment, Reveal.commitment, commitment_eq, commitment_eq] at hsame
  have hhash := congrArg Digest.asBytes hsame
  have hstream := hfree _ (hmem left hleft) _ (hmem right hright) hhash
  have hparts := framed_inj (fits_commitmentParts _ _) (fits_commitmentParts _ _) hstream
  obtain ⟨hnonce, hblinding⟩ := commitmentParts_inj hparts
  cases left
  cases right
  simp only at hnonce hblinding
  rw [hnonce, hblinding]

-- Permuted commitments are opened by permuted reveals.
theorem nonces_perm_of_roster_perm
    (hfree : ByteHasher.CollisionFree (first.streams ++ second.streams))
    (hperm : (first.reveals.map Reveal.commitment).Perm
      (second.reveals.map Reveal.commitment)) : first.nonces.Perm second.nonces := by
  have hinjective : Set.InjOn Reveal.commitment
      {reveal | reveal ∈ first.reveals ∨ reveal ∈ second.reveals} := by
    intro left hleft right hright hsame
    exact reveal_eq_of_commitment_eq hfree hleft hright hsame
  have hnonempty : Nonempty Reveal := ⟨⟨Bytes.zero 32, Bytes.zero 32⟩⟩
  have hreopen := hinjective.leftInvOn_invFunOn
  have hback : ∀ reveals : List Reveal,
      (∀ reveal ∈ reveals, reveal ∈ first.reveals ∨ reveal ∈ second.reveals) →
      (reveals.map Reveal.commitment).map (Function.invFunOn Reveal.commitment
        {reveal | reveal ∈ first.reveals ∨ reveal ∈ second.reveals}) = reveals := by
    intro reveals hreveals
    rw [List.map_map]
    conv_rhs => rw [← List.map_id reveals]
    exact List.map_congr_left fun reveal hreveal => hreopen (hreveals reveal hreveal)
  have hreveals := hperm.map (Function.invFunOn Reveal.commitment
    {reveal | reveal ∈ first.reveals ∨ reveal ∈ second.reveals})
  rw [hback _ fun _ => .inl, hback _ fun _ => .inr] at hreveals
  exact hreveals.map Reveal.nonce

-- A context determines what went into it.
theorem inputs_of_context_eq
    (hfree : ByteHasher.CollisionFree (first.streams ++ second.streams))
    (hfirst : first.Finishes one) (hsecond : second.Finishes other)
    (hcontext : one.context = other.context) :
    first.nonces.Perm second.nonces ∧ first.channelMetadata = second.channelMetadata := by
  obtain ⟨_, _, hone⟩ := hfirst.derives
  obtain ⟨_, _, hother⟩ := hsecond.derives
  rw [hone, hother] at hcontext
  have hhash := congrArg Digest.asBytes hcontext
  have hstream := hfree _ (List.mem_append_left _ first.mem_streams_context) _
    (List.mem_append_right _ second.mem_streams_context) hhash
  exact contextParts_inj
    (framed_inj (fits_contextParts _ first.fits) (fits_contextParts _ second.fits) hstream)

theorem context_eq_of_roster_perm
    (hfree : ByteHasher.CollisionFree (first.streams ++ second.streams))
    (hfirst : first.Finishes one) (hsecond : second.Finishes other)
    (hroster : first.roster.Perm second.roster)
    (hmetadata : first.channelMetadata = second.channelMetadata) :
    one.context = other.context := by
  obtain ⟨hopened, _, hone⟩ := hfirst.derives
  obtain ⟨hothers, _, hother⟩ := hsecond.derives
  rw [hopened, hothers] at hroster
  have hnonces := nonces_perm_of_roster_perm hfree hroster
  have hparts : contextParts first.nonces first.channelMetadata =
      contextParts second.nonces second.channelMetadata := by
    rw [contextParts, contextParts, sortUnstable_eq_iff.2 hnonces, hnonces.length_eq, hmetadata]
  rw [hone, hother, hparts]

-- Participants of one round agree on a context, a context says what they were shown, and no context
-- is derived but from a valid roster that was opened in full.
theorem live_auth_agreement :
    (∀ participants : List Participant,
      ByteHasher.CollisionFree (participants.flatMap Participant.streams) →
      ((∀ first ∈ participants, ∀ second ∈ participants, first.roster.Perm second.roster ∧
          first.channelMetadata = second.channelMetadata) →
        ∀ first ∈ participants, ∀ second ∈ participants, ∀ one other,
          first.Finishes one → second.Finishes other → one.context = other.context) ∧
      ∀ first ∈ participants, ∀ second ∈ participants, ∀ one other,
        first.Finishes one → second.Finishes other → one.context = other.context →
        first.nonces.Perm second.nonces ∧ first.roster.length = second.roster.length ∧
          first.channelMetadata = second.channelMetadata ∧
          first.contribution.nonce ∈ first.nonces ∧ second.contribution.nonce ∈ second.nonces) ∧
    ∀ (contribution : Contribution) roster locked reveals channelMetadata scratch session after,
      contribution.lock roster = .ok locked →
      locked.finish reveals channelMetadata scratch = .ok session after →
      roster = reveals.map Reveal.commitment ∧ 2 ≤ roster.length ∧ roster.Nodup ∧
        contribution.commitment ∈ roster := by
  constructor
  · intro participants hfree
    have hpair : ∀ first ∈ participants, ∀ second ∈ participants,
        ByteHasher.CollisionFree (first.streams ++ second.streams) := by
      intro first hfirst second hsecond
      apply hfree.mono
      intro stream hstream
      rcases List.mem_append.1 hstream with hmem | hmem
      · exact List.mem_flatMap.2 ⟨first, hfirst, hmem⟩
      · exact List.mem_flatMap.2 ⟨second, hsecond, hmem⟩
    constructor
    · intro hsame first hfirst second hsecond one other hone hother
      obtain ⟨hroster, hmetadata⟩ := hsame first hfirst second hsecond
      exact context_eq_of_roster_perm (hpair first hfirst second hsecond) hone hother hroster
        hmetadata
    · intro first hfirst second hsecond one other hone hother hcontext
      obtain ⟨hnonces, hmetadata⟩ :=
        inputs_of_context_eq (hpair first hfirst second hsecond) hone hother hcontext
      obtain ⟨hopened, hown, _⟩ := hone.derives
      obtain ⟨hothers, hsecondOwn, _⟩ := hother.derives
      refine ⟨hnonces, ?_, hmetadata, hown, hsecondOwn⟩
      have hlength := hnonces.length_eq
      simp only [Participant.nonces, List.length_map] at hlength
      rw [hopened, hothers, List.length_map, List.length_map, hlength]
  · intro contribution roster locked reveals channelMetadata scratch session after hlock hfinish
    obtain ⟨htwo, hdistinct, _, _, hposition⟩ := lock_eq_ok.1 hlock
    refine ⟨(opened_of_finish hlock hfinish).1, htwo, hdistinct, ?_⟩
    obtain ⟨hplace, hfound, _⟩ := List.idxOf?_eq_some_iff.1 hposition
    exact List.mem_of_getElem hfound

end Agreement

end Nymora.Protocol.LiveAuth

namespace Nymora.Protocol.LiveAuth.Sample

open Nymora.Crypto
open scoped Nymora.Crypto.Reference

-- The first and the last hold the same nonce under different blindings.
def alice : Contribution := ⟨Bytes.replicate 32 1, Bytes.replicate 32 129⟩

def bob : Contribution := ⟨Bytes.replicate 32 2, Bytes.replicate 32 130⟩

def carol : Contribution := ⟨Bytes.replicate 32 1, Bytes.replicate 32 131⟩

-- A participant of the honest round, with a buffer longer than it needs.
def honest (contribution : Contribution) (contributions : List Contribution) : Participant where
  contribution := contribution
  roster := contributions.map Contribution.commitment
  reveals := contributions.map fun other => ⟨other.nonce, other.blinding⟩
  scratch := List.replicate 4 (Bytes.replicate 32 255)
  channelMetadata := [7]
  fits := by rw [Framing.Fits]; decide

def ours : Participant := honest alice [alice, bob, carol]

def theirs : Participant := honest bob [carol, alice, bob]

theorem live_auth_agreement_three : ∃ one other, ours.Finishes one ∧ theirs.Finishes other ∧
    one.context = other.context ∧ ours.nonces.Perm theirs.nonces := by
  obtain ⟨locked, hlock, one, after, hone⟩ := honest_round (List.mem_cons_self)
    (by decide) (by decide +kernel : ([alice, bob, carol].map Contribution.commitment).Nodup)
    (by decide : [alice, bob, carol].length ≤ ours.scratch.length)
  obtain ⟨lockedOther, hlockOther, other, afterOther, hother⟩ :=
    honest_round (List.mem_cons_of_mem _ (List.mem_cons_of_mem _ List.mem_cons_self))
    (by decide) (by decide +kernel : ([carol, alice, bob].map Contribution.commitment).Nodup)
    (by decide : [carol, alice, bob].length ≤ theirs.scratch.length)
  have hours : ours.Finishes one := ⟨locked, after, hlock, hone⟩
  have htheirs : theirs.Finishes other := ⟨lockedOther, afterOther, hlockOther, hother⟩
  have hfree : ByteHasher.CollisionFree ([ours, theirs].flatMap Participant.streams) := by
    decide +kernel
  obtain ⟨hagree, hinputs⟩ := live_auth_agreement.1 [ours, theirs] hfree
  have hcontext := hagree (by decide +kernel) ours List.mem_cons_self theirs
    (List.mem_cons_of_mem _ List.mem_cons_self) one other hours htheirs
  have hnonces := hinputs ours List.mem_cons_self theirs
    (List.mem_cons_of_mem _ List.mem_cons_self) one other hours htheirs hcontext
  exact ⟨one, other, hours, htheirs, hcontext, hnonces.1⟩

end Nymora.Protocol.LiveAuth.Sample
