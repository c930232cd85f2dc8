import Nymora.Accumulator.Tree.Theorems

namespace Nymora.Protocol.Operator

open Nymora.Core
open Nymora.Accumulator
open Std (ExtTreeMap)

-- One policy class's admission arithmetic.
structure ClassPolicy where
  voucherClass : PolicyClass
  admissionThreshold : UInt32
deriving DecidableEq

-- The empty value the class accumulator places after every leaf.
def PAD : Commitment := .fromBytes (Bytes.zero DIGEST_LEN)

-- The position the `index`-th leaf takes.
def positionOf (index : Nat) : Nat := index * 2

-- The slots a number of landed leaves fills: a depth-0 tree has no neighbour to pad.
def slotCount (depth occupied : Nat) : Nat := if depth = 0 then occupied else 2 * occupied

-- One class's accumulator and bookkeeping.
structure ClassState (depth : Nat) where
  tree : Tree depth
  policy : ClassPolicy
  version : UInt64
  occupied : Nat
  positions : ExtTreeMap Commitment Nat
  slots : tree.leaves.length = slotCount depth occupied
  placed : ∀ leaf position, positions[leaf]? = some position →
    ∃ index < occupied, position = positionOf index ∧ tree.leaves[position]? = some leaf
  known : ∀ index < occupied, ∃ leaf ∈ positions, tree.leaves[positionOf index]? = some leaf
  padded : ∀ index leaf, tree.leaves[positionOf index + 1]? = some leaf → leaf = PAD

-- The neighbour's pad, where the tree has room for it.
def padNeighbour {depth : Nat} (tree : Tree depth) : Tree depth :=
  ((tree.append PAD).map Prod.snd).getD tree

section Landing

variable {depth occupied : Nat} {before tree : Tree depth} {leaf : Commitment} {position : Nat}

-- The leaf takes the next even position.
private theorem position_of_append (hslots : before.leaves.length = slotCount depth occupied)
    (happend : before.append leaf = some (position, tree)) : position = positionOf occupied := by
  obtain ⟨hroom, hposition, _⟩ := Tree.append_eq_some.1 happend
  unfold slotCount at hslots
  unfold positionOf
  by_cases hdepth : depth = 0
  · rw [if_pos hdepth] at hslots
    have hspace := hroom (by omega)
    have hone : 2 ^ depth = 1 := by rw [hdepth, pow_zero]
    omega
  · rw [if_neg hdepth] at hslots
    omega

-- The pad always fits where the leaf did, except at depth 0.
private theorem leaves_padNeighbour (hslots : before.leaves.length = slotCount depth occupied)
    (happend : before.append leaf = some (position, tree)) :
    (padNeighbour tree).leaves = before.leaves ++ leaf :: (if depth = 0 then [] else [PAD]) := by
  obtain ⟨hroom, _, hleaves⟩ := Tree.append_eq_some.1 happend
  have hlength : tree.leaves.length = before.leaves.length + 1 := by simp [hleaves]
  unfold slotCount at hslots
  unfold padNeighbour
  by_cases hdepth : depth = 0
  · have hone : 2 ^ depth = 1 := by rw [hdepth, pow_zero]
    have hfull : tree.append PAD = none := Tree.append_eq_none.2 ⟨by omega, by omega⟩
    rw [hfull, if_pos hdepth]
    exact hleaves
  · rw [if_neg hdepth] at hslots ⊢
    cases hpad : tree.append PAD with
    | none =>
        -- An odd number of leaves is no power of two.
        obtain ⟨hlt, hfull⟩ := Tree.append_eq_none.1 hpad
        have hspace := hroom hlt
        obtain ⟨height, rfl⟩ := Nat.exists_eq_succ_of_ne_zero hdepth
        rw [Nat.pow_succ] at hspace hfull
        omega
    | some appended =>
        obtain ⟨_, _, happended⟩ := Tree.append_eq_some.1 hpad
        simp [happended, hleaves]

private theorem length_padNeighbour (hslots : before.leaves.length = slotCount depth occupied)
    (happend : before.append leaf = some (position, tree)) :
    (padNeighbour tree).leaves.length = slotCount depth (occupied + 1) := by
  rw [leaves_padNeighbour hslots happend, List.length_append, hslots]
  unfold slotCount
  by_cases hdepth : depth = 0
  · simp [hdepth]
  · simp [hdepth]
    omega

-- The new leaf stands at its position, and nothing before it moves.
private theorem getElem?_padNeighbour (hslots : before.leaves.length = slotCount depth occupied)
    (happend : before.append leaf = some (position, tree)) (slot : Nat) :
    (padNeighbour tree).leaves[slot]? =
      if slot < position then before.leaves[slot]? else
        (leaf :: (if depth = 0 then [] else [PAD]))[slot - position]? := by
  obtain ⟨_, hposition, _⟩ := Tree.append_eq_some.1 happend
  rw [leaves_padNeighbour hslots happend, List.getElem?_append, ← hposition]

end Landing

namespace ClassState

variable {depth : Nat}

-- Leaves a class can ever hold: half the tree's slots.
def CAPACITY (depth : Nat) : Nat :=
  if depth = 0 then 1 else if depth < 64 then 2 ^ (depth - 1) else 2 ^ 64 - 1

def new (policy : ClassPolicy) : ClassState depth where
  tree := .new
  policy := policy
  version := 1
  occupied := 0
  positions := ∅
  slots := by simp [Tree.new, slotCount]
  placed := by simp
  known := by simp
  padded := by simp [Tree.new]

section Landed

variable {state : ClassState depth} {leaf : Commitment} {position : Nat} {tree : Tree depth}
  (happend : state.tree.append leaf = some (position, tree))

include happend

private theorem placed_insert (other : Commitment) (slot : Nat)
    (hslot : (state.positions.insert leaf position)[other]? = some slot) :
    ∃ index < state.occupied + 1, slot = positionOf index ∧
      (padNeighbour tree).leaves[slot]? = some other := by
  have hposition := position_of_append state.slots happend
  simp only [ExtTreeMap.getElem?_insert, Std.compare_eq_iff_eq] at hslot
  rw [getElem?_padNeighbour state.slots happend]
  by_cases heq : leaf = other
  · rw [if_pos heq, Option.some_inj] at hslot
    exact ⟨state.occupied, by omega, by omega, by simp [← hslot, heq]⟩
  · rw [if_neg heq] at hslot
    obtain ⟨index, hindex, hat, hleaf⟩ := state.placed other slot hslot
    refine ⟨index, by omega, hat, ?_⟩
    rw [if_pos (by unfold positionOf at *; omega)]
    exact hleaf

private theorem known_insert (index : Nat) (hindex : index < state.occupied + 1) :
    ∃ other ∈ state.positions.insert leaf position,
      (padNeighbour tree).leaves[positionOf index]? = some other := by
  have hposition := position_of_append state.slots happend
  rw [getElem?_padNeighbour state.slots happend]
  by_cases hlast : index = state.occupied
  · exact ⟨leaf, ExtTreeMap.mem_insert_self, by simp [hlast, hposition]⟩
  · obtain ⟨other, hmem, hleaf⟩ := state.known index (by omega)
    refine ⟨other, ExtTreeMap.mem_insert.2 (Or.inr hmem), ?_⟩
    rw [if_pos (by unfold positionOf at *; omega)]
    exact hleaf

private theorem padded_append (index : Nat) (other : Commitment)
    (hother : (padNeighbour tree).leaves[positionOf index + 1]? = some other) : other = PAD := by
  have hposition := position_of_append state.slots happend
  rw [getElem?_padNeighbour state.slots happend] at hother
  by_cases hbefore : positionOf index + 1 < position
  · rw [if_pos hbefore] at hother
    exact state.padded index other hother
  · -- An odd slot is never the new leaf's own.
    rw [if_neg hbefore] at hother
    have hpast : positionOf index + 1 - position ≠ 0 := by unfold positionOf at *; omega
    obtain ⟨past, hsucc⟩ := Nat.exists_eq_succ_of_ne_zero hpast
    rw [hsucc, List.getElem?_cons_succ] at hother
    have hmem := List.mem_of_getElem? hother
    split at hmem
    · cases hmem
    · exact List.mem_singleton.1 hmem

end Landed

-- Lands a leaf at the next even position, padding its neighbour.
def land (state : ClassState depth) (leaf : Commitment) : Option (Nat × ClassState depth) :=
  match happend : state.tree.append leaf with
  | none => none
  | some (position, tree) => some (position, {
      tree := padNeighbour tree
      policy := state.policy
      version := state.version
      occupied := state.occupied + 1
      positions := state.positions.insert leaf position
      slots := length_padNeighbour state.slots happend
      placed := placed_insert happend
      known := known_insert happend
      padded := padded_append happend })

-- What landing does, said once.
theorem land_eq_some {state landed : ClassState depth} {leaf : Commitment} {position : Nat}
    (hland : state.land leaf = some (position, landed)) :
    position = positionOf state.occupied ∧ landed.policy = state.policy ∧
      landed.version = state.version ∧ landed.occupied = state.occupied + 1 ∧
      landed.positions = state.positions.insert leaf position ∧
      landed.tree.leaves = state.tree.leaves ++ leaf :: (if depth = 0 then [] else [PAD]) := by
  unfold land at hland
  split at hland
  next => cases hland
  next place tree happend =>
    cases hland
    exact ⟨position_of_append state.slots happend, rfl, rfl, rfl, rfl,
      leaves_padNeighbour state.slots happend⟩

-- Below the capacity there is room.
theorem land_isSome {state : ClassState depth} (leaf : Commitment)
    (hroom : state.occupied < CAPACITY depth) : (state.land leaf).isSome := by
  unfold land
  split
  next hfull =>
    exfalso
    obtain ⟨hdepth, hlength⟩ := Tree.append_eq_none.1 hfull
    have hslots := state.slots
    unfold slotCount at hslots
    unfold CAPACITY at hroom
    by_cases hzero : depth = 0
    · rw [if_pos hzero] at hslots hroom
      have hone : 2 ^ depth = 1 := by rw [hzero, pow_zero]
      omega
    · rw [if_neg hzero] at hslots hroom
      rw [if_pos hdepth] at hroom
      obtain ⟨height, rfl⟩ := Nat.exists_eq_succ_of_ne_zero hzero
      rw [Nat.pow_succ] at hlength
      rw [Nat.succ_sub_one] at hroom
      omega
  next => rfl

-- Two landed leaves never share a position.
theorem positions_injective {state : ClassState depth} {left right : Commitment} {position : Nat}
    (hleft : state.positions[left]? = some position)
    (hright : state.positions[right]? = some position) : left = right := by
  obtain ⟨_, _, _, hleaf⟩ := state.placed left position hleft
  obtain ⟨_, _, _, hother⟩ := state.placed right position hright
  exact Option.some_inj.1 (hleaf.symm.trans hother)

end ClassState

end Nymora.Protocol.Operator
