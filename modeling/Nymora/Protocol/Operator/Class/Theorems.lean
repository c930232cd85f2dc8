import Mathlib.Data.List.Nodup
import Nymora.Lib.Method
import Nymora.Protocol.Operator.Class

namespace Nymora.Protocol.Operator.ClassState

open Nymora.Core
open Nymora.Accumulator
open Std (ExtTreeMap)

variable {depth : Nat} {before after : ClassState depth} {leaves : List Commitment}

-- The leaf standing in the slot of one landing.
def Occupies (entry : ClassState depth) (index : Nat) (leaf : Commitment) : Prop :=
  index < entry.occupied ∧ entry.tree.leaves[positionOf index]? = some leaf

theorem occupies_of_land {position index : Nat} {leaf other : Commitment}
    {landed : ClassState depth} (hland : before.land leaf = some (position, landed))
    (hoccupies : landed.Occupies index other) :
    before.Occupies index other ∨ index = before.occupied ∧ other = leaf := by
  obtain ⟨hposition, _, _, hoccupied, hpositions, hleaves⟩ := land_eq_some hland
  obtain ⟨hindex, hother⟩ := hoccupies
  by_cases hearlier : index < before.occupied
  · obtain ⟨stood, _, hstood⟩ := before.known index hearlier
    have hlt := (List.getElem?_eq_some_iff.1 hstood).1
    rw [hleaves, List.getElem?_append_left hlt] at hother
    exact Or.inl ⟨hearlier, hother⟩
  · have hlast : index = before.occupied := by omega
    obtain ⟨_, _, _, hleaf⟩ := landed.placed leaf position (by rw [hpositions]; simp)
    rw [hposition, ← hlast, hother] at hleaf
    exact Or.inr ⟨hlast, Option.some_inj.1 hleaf⟩

-- One leaf after the other lands.
def LandAll (leaves : List Commitment) (before after : ClassState depth) : Prop :=
  Method.Loop (fun leaf current landed => ∃ position, current.land leaf = some (position, landed))
    leaves before after

namespace LandAll

theorem policy_eq (hlands : LandAll leaves before after) : after.policy = before.policy := by
  refine Method.Loop.frame hlands ?_
  rintro leaf current landed ⟨position, hland⟩
  exact (land_eq_some hland).2.1

theorem version_eq (hlands : LandAll leaves before after) : after.version = before.version := by
  refine Method.Loop.frame hlands ?_
  rintro leaf current landed ⟨position, hland⟩
  exact (land_eq_some hland).2.2.1

theorem positions_of_not_mem (hlands : LandAll leaves before after) {leaf : Commitment}
    (hleaf : leaf ∉ leaves) : after.positions[leaf]? = before.positions[leaf]? := by
  induction hlands with
  | nil => rfl
  | cons hland hrest ih =>
      obtain ⟨_, hland⟩ := hland
      obtain ⟨_, _, _, _, hpositions, _⟩ := land_eq_some hland
      obtain ⟨hfirst, hlater⟩ := List.ne_and_not_mem_of_not_mem_cons hleaf
      rw [ih hlater, hpositions]
      simp [ExtTreeMap.getElem?_insert, hfirst.symm]

-- A leaf that lands once takes the place its turn gives it.
theorem positions_eq {earlier later : List Commitment} {leaf : Commitment}
    (hlands : LandAll (earlier ++ leaf :: later) before after) (hlater : leaf ∉ later) :
    after.positions[leaf]? = some (positionOf (before.occupied + earlier.length)) := by
  induction earlier generalizing before with
  | nil =>
      obtain ⟨middle, ⟨position, hland⟩, hrest⟩ := Method.Loop.cons_iff.1 hlands
      obtain ⟨hposition, _, _, _, hpositions, _⟩ := land_eq_some hland
      rw [positions_of_not_mem hrest hlater, hpositions, hposition]
      simp
  | cons first earlier ih =>
      obtain ⟨middle, ⟨position, hland⟩, hrest⟩ := Method.Loop.cons_iff.1 hlands
      obtain ⟨_, _, _, hoccupied, _, _⟩ := land_eq_some hland
      rw [ih hrest, hoccupied, List.length_cons]
      congr 2
      omega

theorem mem_positions (hlands : LandAll leaves before after) {leaf : Commitment} :
    leaf ∈ after.positions ↔ leaf ∈ before.positions ∨ leaf ∈ leaves := by
  induction hlands with
  | nil => simp
  | cons hland hrest ih =>
      obtain ⟨_, hland⟩ := hland
      obtain ⟨_, _, _, _, hpositions, _⟩ := land_eq_some hland
      rw [ih, hpositions, ExtTreeMap.mem_insert, Std.compare_eq_iff_eq, List.mem_cons,
        eq_comm (a := leaf)]
      tauto

-- The tree only grows.
theorem leaves_prefix (hlands : LandAll leaves before after) :
    before.tree.leaves <+: after.tree.leaves := by
  induction hlands with
  | nil => exact List.prefix_rfl
  | cons hland hrest ih =>
      obtain ⟨_, hland⟩ := hland
      obtain ⟨_, _, _, _, _, hleaves⟩ := land_eq_some hland
      rw [hleaves] at ih
      exact (List.prefix_append _ _).trans ih

-- A slot held its leaf before, or one of the landing leaves took it.
theorem occupies (hlands : LandAll leaves before after) {index : Nat} {leaf : Commitment}
    (hoccupies : after.Occupies index leaf) : before.Occupies index leaf ∨ leaf ∈ leaves := by
  induction hlands with
  | nil => exact Or.inl hoccupies
  | cons hland hrest ih =>
      obtain ⟨_, hland⟩ := hland
      rcases ih hoccupies with hmiddle | hlater
      · rcases occupies_of_land hland hmiddle with hearlier | ⟨_, rfl⟩
        · exact Or.inl hearlier
        · exact Or.inr List.mem_cons_self
      · exact Or.inr (List.mem_cons_of_mem _ hlater)

end LandAll

section Placement

-- Every landed leaf is recorded at the slot it stands in.
def Located (entry : ClassState depth) : Prop :=
  ∀ index leaf, entry.Occupies index leaf → entry.positions[leaf]? = some (positionOf index)

-- The tree, the positions and the counter say the same: one slot a leaf, one pad beside it.
structure AtMostOnce (entry : ClassState depth) : Prop where
  single : ∀ first second leaf, entry.tree.leaves[positionOf first]? = some leaf →
    entry.tree.leaves[positionOf second]? = some leaf → first = second
  alone : ∀ (first second : Nat) (leaf : Commitment), leaf ≠ PAD → entry.tree.leaves[first]? = some leaf →
    entry.tree.leaves[second]? = some leaf → first = second
  inverse : ∀ leaf position, entry.positions[leaf]? = some position ↔
    (∃ index, position = positionOf index) ∧ entry.tree.leaves[position]? = some leaf
  padded : ∀ index < entry.occupied, entry.tree.leaves[positionOf index + 1]? = some PAD
  counted : entry.occupied = entry.positions.size
  filled : entry.tree.leaves.length = 2 * entry.occupied

theorem occupies_of_slot (hdepth : 1 ≤ depth) {entry : ClassState depth} {index : Nat}
    {leaf : Commitment} (hslot : entry.tree.leaves[positionOf index]? = some leaf) :
    entry.Occupies index leaf := by
  have hlength := (List.getElem?_eq_some_iff.1 hslot).1
  have hslots := entry.slots
  rw [slotCount, if_neg (by omega)] at hslots
  unfold positionOf at hlength
  exact ⟨by omega, hslot⟩

-- As many leaves are recorded as have landed.
theorem Located.size_positions {entry : ClassState depth} (hlocated : entry.Located) :
    entry.positions.size = entry.occupied := by
  let landed := (List.range entry.occupied).map fun index =>
    entry.tree.leaves.getD (positionOf index) PAD
  have hslot : ∀ index < entry.occupied,
      entry.Occupies index (entry.tree.leaves.getD (positionOf index) PAD) := by
    intro index hindex
    obtain ⟨leaf, _, hleaf⟩ := entry.known index hindex
    rw [List.getD_eq_getElem?_getD, hleaf, Option.getD_some]
    exact ⟨hindex, hleaf⟩
  have hnodup : landed.Nodup := by
    refine List.Nodup.map_on ?_ List.nodup_range
    intro first hfirst second hsecond heq
    have hleft := hlocated _ _ (hslot first (List.mem_range.1 hfirst))
    have hright := hlocated _ _ (hslot second (List.mem_range.1 hsecond))
    rw [heq, hright, Option.some_inj] at hleft
    unfold positionOf at hleft
    omega
  have hperm : entry.positions.keys.Perm landed := by
    refine (List.perm_ext_iff_of_nodup ExtTreeMap.nodup_keys hnodup).2 ?_
    intro leaf
    rw [ExtTreeMap.mem_keys, List.mem_map]
    constructor
    · intro hleaf
      obtain ⟨position, hposition⟩ :=
        Option.isSome_iff_exists.1 (ExtTreeMap.mem_iff_isSome_getElem?.1 hleaf)
      obtain ⟨index, hindex, rfl, hslot⟩ := entry.placed leaf position hposition
      refine ⟨index, List.mem_range.2 hindex, ?_⟩
      rw [List.getD_eq_getElem?_getD, hslot, Option.getD_some]
    · rintro ⟨index, hindex, rfl⟩
      have hrecorded := hlocated _ _ (hslot index (List.mem_range.1 hindex))
      exact ExtTreeMap.mem_iff_isSome_getElem?.2 (Option.isSome_iff_exists.2 ⟨_, hrecorded⟩)
  rw [← ExtTreeMap.length_keys, hperm.length_eq, List.length_map, List.length_range]

-- Where every leaf is recorded where it stands, nothing stands twice.
theorem Located.atMostOnce (hdepth : 1 ≤ depth) {entry : ClassState depth}
    (hlocated : entry.Located) : entry.AtMostOnce := by
  have hrecorded : ∀ index leaf, entry.tree.leaves[positionOf index]? = some leaf →
      entry.positions[leaf]? = some (positionOf index) :=
    fun index leaf hslot => hlocated index leaf (occupies_of_slot hdepth hslot)
  have hsingle : ∀ first second leaf, entry.tree.leaves[positionOf first]? = some leaf →
      entry.tree.leaves[positionOf second]? = some leaf → first = second := by
    intro first second leaf hfirst hsecond
    have hposition := hrecorded first leaf hfirst
    rw [hrecorded second leaf hsecond, Option.some_inj] at hposition
    unfold positionOf at hposition
    omega
  have hslots := entry.slots
  rw [slotCount, if_neg (by omega)] at hslots
  have heven : ∀ slot leaf, leaf ≠ PAD → entry.tree.leaves[slot]? = some leaf →
      ∃ index, slot = positionOf index := by
    intro slot leaf hleaf hslot
    rcases Nat.even_or_odd' slot with ⟨index, rfl | rfl⟩
    · exact ⟨index, Nat.mul_comm _ _⟩
    · refine absurd (entry.padded index leaf ?_) hleaf
      rw [positionOf, Nat.mul_comm]
      exact hslot
  refine ⟨hsingle, ?_, ?_, ?_, hlocated.size_positions.symm, hslots⟩
  · intro first second leaf hleaf hfirst hsecond
    obtain ⟨index, rfl⟩ := heven first leaf hleaf hfirst
    obtain ⟨other, rfl⟩ := heven second leaf hleaf hsecond
    rw [hsingle index other leaf hfirst hsecond]
  · intro leaf position
    constructor
    · intro hposition
      obtain ⟨index, _, hindex, hslot⟩ := entry.placed leaf position hposition
      exact ⟨⟨index, hindex⟩, hslot⟩
    · rintro ⟨⟨index, rfl⟩, hslot⟩
      exact hrecorded index leaf hslot
  · intro index hindex
    have hlength : positionOf index + 1 < entry.tree.leaves.length := by
      unfold positionOf
      omega
    rw [List.getElem?_eq_getElem hlength, Option.some_inj]
    exact entry.padded index _ (List.getElem?_eq_getElem hlength)

theorem Located.land {position : Nat} {leaf : Commitment} {landed : ClassState depth}
    (hlocated : before.Located) (hland : before.land leaf = some (position, landed))
    (hunlanded : leaf ∉ before.positions) : landed.Located := by
  obtain ⟨hposition, _, _, _, hpositions, _⟩ := land_eq_some hland
  intro index other hoccupies
  rw [hpositions]
  simp only [ExtTreeMap.getElem?_insert, Std.compare_eq_iff_eq]
  rcases occupies_of_land hland hoccupies with hearlier | ⟨rfl, rfl⟩
  · have hrecorded := hlocated index other hearlier
    have hne : leaf ≠ other := by
      rintro rfl
      refine hunlanded (ExtTreeMap.mem_iff_isSome_getElem?.2 ?_)
      rw [hrecorded]
      rfl
    rw [if_neg hne]
    exact hrecorded
  · rw [if_pos rfl, hposition]

-- Leaves that land once, and had not landed before, are recorded where they stand.
theorem LandAll.located (hlands : LandAll leaves before after) (hlocated : before.Located)
    (hunlanded : ∀ leaf ∈ leaves, leaf ∉ before.positions) (hdistinct : leaves.Nodup) :
    after.Located := by
  induction hlands with
  | nil => exact hlocated
  | cons hland hrest ih =>
      obtain ⟨_, hland⟩ := hland
      obtain ⟨hfresh, hdistinct⟩ := List.nodup_cons.1 hdistinct
      refine ih (hlocated.land hland (hunlanded _ List.mem_cons_self)) ?_ hdistinct
      intro other hother
      rw [(land_eq_some hland).2.2.2.2.1, ExtTreeMap.mem_insert, Std.compare_eq_iff_eq]
      rintro (rfl | hearlier)
      · exact hfresh hother
      · exact hunlanded other (List.mem_cons_of_mem _ hother) hearlier

end Placement

end Nymora.Protocol.Operator.ClassState
