import Nymora.Protocol.Operator.Envelope
import Nymora.Protocol.Operator.Inbox.Theorems

namespace Nymora.Protocol.Operator

open Nymora.Core
open Nymora.Crypto
open Nymora.Accumulator
open Std (ExtTreeMap ExtTreeSet)

variable {depth : Nat}

namespace ClassState

variable {entry : ClassState depth} {leaf : Commitment} {position : Nat}

theorem mem_byPosition :
    (position, leaf) ∈ entry.byPosition ↔ entry.positions[leaf]? = some position := by
  simp only [byPosition, List.mem_insertionSort, List.mem_map, Prod.mk.injEq, Prod.exists,
    ExtTreeMap.mem_toList_iff_getElem?_eq_some]
  constructor
  · rintro ⟨_, _, hposition, rfl, rfl⟩
    exact hposition
  · intro hposition
    exact ⟨leaf, position, hposition, rfl, rfl⟩

-- The order of delivery is total and transitive.
private instance : Std.Total fun left right : Nat × Commitment =>
    left.1 < right.1 ∨ left.1 = right.1 ∧ (compare left.2 right.2).isLE where
  total left right := by
    rcases Nat.lt_trichotomy left.1 right.1 with hlt | heq | hgt
    · exact Or.inl (Or.inl hlt)
    · have hswap := Std.OrientedOrd.eq_swap (a := left.2) (b := right.2)
      cases hcompare : compare right.2 left.2 with
      | lt => exact Or.inr (Or.inr ⟨heq.symm, rfl⟩)
      | eq => exact Or.inr (Or.inr ⟨heq.symm, rfl⟩)
      | gt => exact Or.inl (Or.inr ⟨heq, by rw [hswap, hcompare]; rfl⟩)
    · exact Or.inr (Or.inl hgt)

private instance : IsTrans (Nat × Commitment) fun left right =>
    left.1 < right.1 ∨ left.1 = right.1 ∧ (compare left.2 right.2).isLE where
  trans left middle right hfirst hsecond := by
    rcases hfirst with hlt | ⟨heq, hle⟩
    · rcases hsecond with hless | ⟨hsame, _⟩
      · exact Or.inl (Nat.lt_trans hlt hless)
      · exact Or.inl (hsame ▸ hlt)
    · rcases hsecond with hless | ⟨hsame, hrest⟩
      · exact Or.inl (heq ▸ hless)
      · exact Or.inr ⟨heq.trans hsame, Std.TransOrd.isLE_trans hle hrest⟩

-- In delivery order the positions ascend: no two leaves share one.
theorem byPosition_sorted (entry : ClassState depth) :
    entry.byPosition.Pairwise fun left right => left.1 < right.1 := by
  have hunsorted : (entry.positions.toList.map fun named => (named.2, named.1)).Pairwise
      fun left right => left.1 ≠ right.1 := by
    rw [List.pairwise_map]
    refine List.Pairwise.imp_of_mem ?_ entry.positions.distinct_keys_toList
    intro left right hleft hright hkeys heq
    rw [Std.compare_eq_iff_eq] at hkeys
    rw [ExtTreeMap.mem_toList_iff_getElem?_eq_some] at hleft hright
    rw [show left.2 = right.2 from heq] at hleft
    exact hkeys (positions_injective hleft hright)
  have hdistinct : entry.byPosition.Pairwise fun left right => left.1 ≠ right.1 :=
    (List.Perm.pairwise_iff (fun hne => Ne.symm hne) (List.perm_insertionSort _ _)).2 hunsorted
  refine List.Pairwise.imp ?_ ((List.pairwise_insertionSort _ _).and hdistinct)
  rintro left right ⟨hlt | ⟨heq, _⟩, hne⟩
  · exact hlt
  · exact absurd heq hne

-- What landings write of a class.
def landings (entry : ClassState depth) : Tree depth × Nat × ExtTreeMap Commitment Nat :=
  (entry.tree, entry.occupied, entry.positions)

theorem byPosition_congr {left right : ClassState depth} (hlandings : left.landings = right.landings) :
    left.byPosition = right.byPosition := by
  have hpositions : left.positions = right.positions := congrArg (·.2.2) hlandings
  rw [byPosition, byPosition, hpositions]

end ClassState

namespace AgoraState

theorem inboxLive_eq_some {state : AgoraState depth} {leaf : Commitment} {key : InboxPublicKey} :
    state.inboxLive leaf = some key ↔ leaf ∉ state.revokedLeaves ∧
      ∃ record, state.inboxes[leaf]? = some record ∧
        state.epoch.get - record.since.get < state.inboxHorizon.toNat ∧ record.key = key := by
  simp only [inboxLive, Option.bind_eq_bind, Option.bind_eq_some_iff, Option.guard_eq_some',
    exists_const, Option.pure_def, Option.some_inj]

variable [Primitives] {state first second : AgoraState depth}

-- The key that a landed leaf's ciphertext is sealed to: live, and agreeing contributorily.
def deliveredKey (state : AgoraState depth) (leaf : Commitment) : Option InboxPublicKey :=
  (state.inboxLive leaf).filter fun key => (Inbox.agree state.ephemeralSecretNow key).isSome

theorem deliveredKey_eq_some {leaf : Commitment} {key : InboxPublicKey} :
    state.deliveredKey leaf = some key ↔
      state.inboxLive leaf = some key ∧ (Inbox.agree state.ephemeralSecretNow key).isSome := by
  simp [deliveredKey, Option.filter_eq_some_iff]

theorem ciphertextFor_eq (state : AgoraState depth) (policyClass : PolicyClass)
    (entry : ClassState depth) (position : Nat) (leaf : Commitment) :
    state.ciphertextFor policyClass entry position leaf = do
      let inbox ← state.deliveredKey leaf
      let agreed ← Inbox.agree state.ephemeralSecretNow inbox
      let witness ← entry.tree.witness position
      return {
        tag := Inbox.lookupTag agreed state.ephemeralKeyNow inbox policyClass
        bytes := state.sealNow (Inbox.sealKey agreed state.ephemeralKeyNow inbox policyClass)
          (state.ownPlain position entry.tree.occupiedHeight witness.siblings) } := by
  unfold ciphertextFor deliveredKey
  cases state.inboxLive leaf with
  | none => rfl
  | some inbox =>
      cases hagree : Inbox.agree state.ephemeralSecretNow inbox with
      | none => simp [hagree, Option.filter_some]
      | some agreed => simp [hagree, Option.filter_some]

-- A landed leaf gets a ciphertext exactly where a key is delivered to. A tree has no more slots
-- than its 64-bit positions count.
theorem ciphertextFor_isSome {policyClass : PolicyClass} {entry : ClassState depth}
    {position : Nat} {leaf : Commitment} (hcounted : entry.tree.leaves.length ≤ 2 ^ 64)
    (hposition : entry.positions[leaf]? = some position) :
    (state.ciphertextFor policyClass entry position leaf).isSome =
      (state.deliveredKey leaf).isSome := by
  obtain ⟨_, _, _, hslot⟩ := entry.placed leaf position hposition
  obtain ⟨witness, hwitness⟩ := Option.isSome_iff_exists.1
    (Tree.witness_isSome_of_le (List.getElem?_eq_some_iff.1 hslot).1 hcounted)
  rw [ciphertextFor_eq]
  cases hkey : state.deliveredKey leaf with
  | none => rfl
  | some key =>
      obtain ⟨agreed, hagreed⟩ := Option.isSome_iff_exists.1 (deliveredKey_eq_some.1 hkey).2
      simp [hagreed, hwitness]

theorem exists_ciphertextFor (policyClass : PolicyClass) {entry : ClassState depth}
    {position : Nat} {leaf : Commitment} {key : InboxPublicKey}
    (hcounted : entry.tree.leaves.length ≤ 2 ^ 64)
    (hposition : entry.positions[leaf]? = some position)
    (hdelivered : state.inboxLive leaf = some key ∧
      (Inbox.agree state.ephemeralSecretNow key).isSome) :
    ∃ ciphertext, state.ciphertextFor policyClass entry position leaf = some ciphertext := by
  rw [← Option.isSome_iff_exists, ciphertextFor_isSome hcounted hposition,
    deliveredKey_eq_some.2 hdelivered]
  rfl

-- A ciphertext in the envelope was sealed for a landed leaf.
theorem envelopeNow_ciphertexts (state : AgoraState depth) :
    state.envelopeNow.ciphertexts = state.ciphertextsNow := rfl

theorem mem_ciphertextsNow {ciphertext : Ciphertext} :
    ciphertext ∈ state.ciphertextsNow ↔
      ∃ (policyClass : PolicyClass) (entry : ClassState depth) (position : Nat)
        (leaf : Commitment), state.classes[policyClass]? = some entry ∧
        entry.positions[leaf]? = some position ∧
        state.ciphertextFor policyClass entry position leaf = some ciphertext := by
  simp only [ciphertextsNow, List.mem_flatMap, List.mem_filterMap, Prod.exists,
    ExtTreeMap.mem_toList_iff_getElem?_eq_some, ClassState.mem_byPosition]
  constructor
  · rintro ⟨policyClass, entry, hentry, position, leaf, hposition, hciphertext⟩
    exact ⟨policyClass, entry, position, leaf, hentry, hposition, hciphertext⟩
  · rintro ⟨policyClass, entry, position, leaf, hentry, hposition, hciphertext⟩
    exact ⟨policyClass, entry, hentry, position, leaf, hposition, hciphertext⟩

-- Everything an envelope is built from stands the same in both states.
structure SameDelivery (first second : AgoraState depth) : Prop where
  agora : second.agora = first.agora
  epoch : second.epoch = first.epoch
  tagSecret : second.tagSecret = first.tagSecret
  statementSeed : second.statementSeed = first.statementSeed
  history : second.history = first.history
  revocations : second.revocations = first.revocations
  spends : second.spends = first.spends
  head : second.headNow = first.headNow
  landings : (second.classes.map fun _ entry => entry.landings) =
    first.classes.map fun _ entry => entry.landings
  delivered : ∀ leaf, Landed first leaf → second.deliveredKey leaf = first.deliveredKey leaf

omit [Primitives] in
private theorem flatMap_eq_of_map_eq {α β γ : Type} {left right : List α} {shared : α → β}
    {produce other : α → List γ} (hshared : left.map shared = right.map shared)
    (hproduce : ∀ a ∈ left, ∀ b ∈ right, shared a = shared b → produce a = other b) :
    left.flatMap produce = right.flatMap other := by
  induction left generalizing right with
  | nil =>
      rw [List.map_nil] at hshared
      rw [List.map_eq_nil_iff.1 hshared.symm, List.flatMap_nil, List.flatMap_nil]
  | cons a left ih =>
      obtain ⟨b, rest, rfl, hhead, htail⟩ := List.map_eq_cons_iff.1 hshared.symm
      rw [List.flatMap_cons, List.flatMap_cons,
        hproduce a List.mem_cons_self b List.mem_cons_self hhead.symm,
        ih htail.symm fun a ha b hb => hproduce a (List.mem_cons_of_mem _ ha) b
          (List.mem_cons_of_mem _ hb)]

namespace SameDelivery

variable (hsame : SameDelivery first second)

include hsame

theorem ciphertextFor_eq {policyClass : PolicyClass} {entry other : ClassState depth}
    {position : Nat} {leaf : Commitment} (hlanded : Landed first leaf)
    (htree : other.tree = entry.tree) :
    second.ciphertextFor policyClass other position leaf =
      first.ciphertextFor policyClass entry position leaf := by
  have hsecret : second.ephemeralSecretNow = first.ephemeralSecretNow := by
    rw [ephemeralSecretNow, hsame.tagSecret, hsame.agora, hsame.epoch, ephemeralSecretNow]
  rw [AgoraState.ciphertextFor_eq, AgoraState.ciphertextFor_eq, hsame.delivered leaf hlanded]
  simp only [ephemeralKeyNow, hsecret, htree, sealNow, ownPlain, bodyKeyNow, hsame.tagSecret,
    hsame.agora, hsame.epoch]

theorem ciphertextsNow_eq : second.ciphertextsNow = first.ciphertextsNow := by
  have hlists := congrArg ExtTreeMap.toList hsame.landings
  rw [ExtTreeMap.toList_map, ExtTreeMap.toList_map] at hlists
  refine flatMap_eq_of_map_eq hlists ?_
  rintro ⟨policyClass, other⟩ _ ⟨_, entry⟩ hentry heq
  obtain ⟨rfl, hlandings⟩ := Prod.mk.inj heq
  have htree : other.tree = entry.tree := congrArg Prod.fst hlandings
  dsimp only
  rw [ClassState.byPosition_congr hlandings]
  refine List.filterMap_congr ?_
  rintro ⟨position, leaf⟩ hleaf
  refine hsame.ciphertextFor_eq ⟨policyClass, entry,
    ExtTreeMap.mem_toList_iff_getElem?_eq_some.1 hentry, ?_⟩ htree
  rw [ExtTreeMap.mem_iff_isSome_getElem?, ClassState.mem_byPosition.1 hleaf]
  rfl

-- The envelopes are the same, signature included.
theorem envelopeNow_eq : second.envelopeNow = first.envelopeNow := by
  have hbody : second.bodyNow = first.bodyNow := by
    simp only [bodyNow, snapshotNow, tagKeyNow, fetchKeyNow, hsame.epoch, hsame.history,
      hsame.revocations, hsame.spends, hsame.tagSecret, hsame.agora]
  simp only [envelopeNow, hbody, hsame.ciphertextsNow_eq, hsame.head, ephemeralKeyNow,
    ephemeralSecretNow, bodyKeyNow, sealNow, hsame.epoch, hsame.tagSecret, hsame.agora,
    hsame.statementSeed]

end SameDelivery

end AgoraState

end Nymora.Protocol.Operator
