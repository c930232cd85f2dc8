import Nymora.Accumulator.Tree
import Nymora.Crypto.Poseidon.CollisionFree

namespace Nymora.Accumulator

open Nymora.Core
open Nymora.Crypto

@[simp] theorem value_hashNode (left right : Node) :
    (hashNode left right).value = hashPair left.value right.value :=
  Field.fromWitnessBytes_toBytes _

@[simp] theorem value_EMPTY_LEAF : EMPTY_LEAF.value = 0 := by
  apply Fin.ext
  simp only [EMPTY_LEAF, Node.zero, Node.value, Field.fromWitnessBytes_val, Bytes.toNatLe_zero]
  rfl

namespace Tree

variable {depth : Nat}

-- The field elements the leaves name.
def values (tree : Tree depth) : List F :=
  tree.leaves.map fun leaf => Field.fromWitnessBytes leaf.asBytes

theorem map_value_leafNodes (tree : Tree depth) : tree.leafNodes.map Node.value = tree.values := by
  simp [leafNodes, values, Node.value]

theorem append_eq_some {tree appended : Tree depth} {value : Commitment} {position : Nat} :
    tree.append value = some (position, appended) ↔
      (depth < 64 → tree.leaves.length < 2 ^ depth) ∧ position = tree.leaves.length ∧
        appended.leaves = tree.leaves ++ [value] := by
  unfold append
  dsimp only
  split
  case isTrue hfull =>
    obtain ⟨hdepth, hlength⟩ := full_iff.1 hfull
    simpa using fun hroom => absurd (hroom hdepth) (Nat.not_lt.2 hlength)
  case isFalse hroom =>
    rw [Option.some_inj, Prod.mk.injEq]
    constructor
    · rintro ⟨rfl, rfl⟩
      refine ⟨fun hdepth => ?_, rfl, rfl⟩
      exact Nat.lt_of_not_le fun hlength => hroom (full_iff.2 ⟨hdepth, hlength⟩)
    · rintro ⟨_, rfl, hleaves⟩
      obtain ⟨leaves, _⟩ := appended
      simp only at hleaves
      subst hleaves
      exact ⟨rfl, rfl⟩

theorem append_eq_none {tree : Tree depth} {value : Commitment} :
    tree.append value = none ↔ depth < 64 ∧ 2 ^ depth ≤ tree.leaves.length := by
  unfold append
  dsimp only
  split
  case isTrue hfull => simpa using full_iff.1 hfull
  case isFalse hroom => simpa [-not_and] using fun hfull => hroom (full_iff.2 hfull)

-- The node of the level-`depth` tree, as the field element it names.
theorem value_nodeAt (tree : Tree depth) (level index : Nat) :
    Node.value (Merkle.nodeAt hashNode EMPTY_LEAF tree.leafNodes level index) =
      Merkle.nodeAt hashPair 0 tree.values level index := by
  rw [Merkle.map_nodeAt Node.value value_hashNode value_EMPTY_LEAF, map_value_leafNodes]

theorem root_eq (tree : Tree depth) :
    tree.root = .fromBytes (Merkle.nodeAt hashNode EMPTY_LEAF tree.leafNodes depth 0).asBytes := by
  simp only [root, Merkle.nodeAt, occupiedLevels, emptyLevels, List.head?_eq_getElem?]

-- An interior node is always canonical bytes; a leaf is where the appended value was.
theorem nodeAt_canonical (tree : Tree depth) (level index : Nat)
    (hcanonical : level = 0 → ∀ leaf ∈ tree.leaves,
      Field.toBytes (Field.fromWitnessBytes leaf.asBytes) = leaf.asBytes) :
    Field.toBytes (Node.value (Merkle.nodeAt hashNode EMPTY_LEAF tree.leafNodes level index)) =
      (Merkle.nodeAt hashNode EMPTY_LEAF tree.leafNodes level index).asBytes := by
  cases level with
  | zero =>
      rw [Merkle.nodeAt_zero]
      cases hleaf : tree.leafNodes[index]? with
      | none => rw [Option.getD_none, value_EMPTY_LEAF]; decide +kernel
      | some node =>
          obtain ⟨leaf, hmem, rfl⟩ := List.mem_map.1 (List.mem_of_getElem? hleaf)
          exact hcanonical rfl leaf hmem
  | succ level => rw [Merkle.nodeAt_succ, value_hashNode]; rfl

theorem root_eq_toBytes (tree : Tree depth)
    (hcanonical : depth = 0 → ∀ leaf ∈ tree.leaves,
      Field.toBytes (Field.fromWitnessBytes leaf.asBytes) = leaf.asBytes) :
    tree.root = .fromBytes (Field.toBytes (Merkle.nodeAt hashPair 0 tree.values depth 0)) := by
  rw [root_eq, ← value_nodeAt, nodeAt_canonical tree depth 0 hcanonical]

-- The inputs the root is hashed from.
def rootQueries (tree : Tree depth) : List (List F) :=
  (Merkle.treeQueries hashPair 0 tree.values depth).map fun pair => [pair.1, pair.2]

end Tree

namespace Witness

variable {depth : Nat}

-- The inputs a fold from a leaf hashes.
def foldQueries (leaf : F) (witness : Witness depth) : List (List F) :=
  (Merkle.climbQueries hashPair leaf witness.turns).map fun pair => [pair.1, pair.2]

end Witness

theorem hashPair_injOn {queries : List (List F)} (hfree : Poseidon.CollisionFree queries) :
    Set.InjOn (fun pair : F × F => hashPair pair.1 pair.2) {pair | [pair.1, pair.2] ∈ queries} := by
  intro left hleft right hright heq
  have hinputs := hfree.inj _ hleft _ hright rfl heq
  simp only [List.cons.injEq, and_true] at hinputs
  exact Prod.ext hinputs.1 hinputs.2

-- Binding: a fold that reaches the field element of a tree's root started from the value of
-- one of the tree's slots, occupied or empty.
theorem climb_slot {depth : Nat} {tree : Tree depth} {leaf : F} {witness : Witness depth}
    {queries : List (List F)} (hqueries : tree.rootQueries ++ witness.foldQueries leaf ⊆ queries)
    (hinjective : Set.InjOn (fun pair : F × F => hashPair pair.1 pair.2)
      {pair | [pair.1, pair.2] ∈ queries})
    (hroot : Merkle.climb hashPair leaf witness.turns =
      Merkle.nodeAt hashPair 0 tree.values depth 0) :
    leaf = tree.values[Merkle.pathIndex witness.turns]?.getD 0 := by
  have hmeets : Merkle.climb hashPair leaf witness.turns =
      Merkle.nodeAt hashPair 0 tree.values witness.turns.length 0 := by
    rw [hroot, witness.length_turns]
  have hbinds := Merkle.climb_binds hinjective
    (fun pair hpair => hqueries (List.mem_append_left _
      (List.mem_map.2 ⟨pair, by simpa using hpair, rfl⟩)))
    (fun pair hpair => hqueries (List.mem_append_right _ (List.mem_map.2 ⟨pair, hpair, rfl⟩)))
    hmeets
  simpa using hbinds

theorem fold_binds {depth : Nat} {tree : Tree depth} {leaf : F} {witness : Witness depth}
    (hfree : Poseidon.CollisionFree (tree.rootQueries ++ witness.foldQueries leaf))
    (hroot : Merkle.climb hashPair leaf witness.turns =
      Merkle.nodeAt hashPair 0 tree.values depth 0) :
    leaf = tree.values[Merkle.pathIndex witness.turns]?.getD 0 :=
  climb_slot (List.Subset.refl _) (hashPair_injOn hfree) hroot

namespace Witness

variable {depth : Nat}

-- The directions of a witness spell its index, where they spell a 64-bit number at all: at
-- depths past 64 the shifts start over.
theorem pathIndex_turns (witness : Witness depth)
    (hcounted : Merkle.pathIndex witness.turns < 2 ^ 64) :
    Merkle.pathIndex witness.turns = witness.index := by
  apply Nat.eq_of_testBit_eq
  intro level
  by_cases hlevel : level < 64
  · by_cases hturned : level < depth
    · have hsibling : level < witness.siblings.length := by
        rw [witness.length_siblings]
        exact hturned
      rw [Merkle.testBit_pathIndex, turns]
      simp [hsibling, Nat.mod_eq_of_lt hlevel]
    · have hpower : 2 ^ depth ≤ 2 ^ level :=
        Nat.pow_le_pow_right (by decide) (Nat.le_of_not_lt hturned)
      have hspelled : Merkle.pathIndex witness.turns < 2 ^ depth := by
        have hlt := Merkle.pathIndex_lt witness.turns
        rwa [witness.length_turns] at hlt
      have hindex := witness.index_lt_depth (by omega)
      rw [Nat.testBit_lt_two_pow (Nat.lt_of_lt_of_le hspelled hpower),
        Nat.testBit_lt_two_pow (Nat.lt_of_lt_of_le hindex hpower)]
  · have hpower : 2 ^ 64 ≤ 2 ^ level :=
      Nat.pow_le_pow_right (by decide) (Nat.le_of_not_lt hlevel)
    rw [Nat.testBit_lt_two_pow (Nat.lt_of_lt_of_le hcounted hpower),
      Nat.testBit_lt_two_pow (Nat.lt_of_lt_of_le witness.index_lt hpower)]

end Witness

namespace Tree

variable {depth : Nat} {tree : Tree depth} {position : Nat} {witness : Witness depth}

-- A fold that meets a root's bytes meets the field element behind them.
theorem climb_of_verifies {leaf : Commitment} (hverifies : verifies leaf witness tree.root = true) :
    Merkle.climb hashPair (Field.fromWitnessBytes leaf.asBytes) witness.turns =
      Merkle.nodeAt hashPair 0 tree.values depth 0 := by
  unfold verifies rootFrom fold at hverifies
  have hroot := of_decide_eq_true hverifies
  rw [root_eq] at hroot
  rw [← value_nodeAt, Node.value, ← hroot, Field.fromWitnessBytes_toBytes]

-- Inclusion soundness: at the index of an accepted witness stands a value of the same field
-- element. A tree has no more leaves than its 64-bit positions count.
theorem leaf_of_verifies {leaf : Commitment}
    (hfree : Poseidon.CollisionFree (tree.rootQueries ++
      witness.foldQueries (Field.fromWitnessBytes leaf.asBytes)))
    (hoccupied : Field.fromWitnessBytes leaf.asBytes ≠ 0)
    (hcounted : tree.leaves.length ≤ 2 ^ 64) (hverifies : verifies leaf witness tree.root = true) :
    ∃ value, tree.leaves[witness.index]? = some value ∧
      Field.fromWitnessBytes value.asBytes = Field.fromWitnessBytes leaf.asBytes := by
  have hslot := fold_binds hfree (climb_of_verifies hverifies)
  cases hvalue : tree.values[Merkle.pathIndex witness.turns]? with
  | none =>
      rw [hvalue, Option.getD_none] at hslot
      exact absurd hslot hoccupied
  | some value =>
      rw [hvalue, Option.getD_some] at hslot
      have hplaced := (List.getElem?_eq_some_iff.1 hvalue).1
      rw [values, List.length_map] at hplaced
      have hindex := witness.pathIndex_turns (Nat.lt_of_lt_of_le hplaced hcounted)
      rw [hindex, values, List.getElem?_map, Option.map_eq_some_iff] at hvalue
      obtain ⟨appended, happended, rfl⟩ := hvalue
      exact ⟨appended, happended, hslot.symm⟩

-- Every slot that a 64-bit position counts has a witness.
theorem witness_isSome_of_le (hposition : position < tree.leaves.length)
    (hcounted : tree.leaves.length ≤ 2 ^ 64) : (tree.witness position).isSome := by
  unfold Tree.witness Witness.new
  rw [if_neg (Nat.not_le.2 hposition), dif_pos ⟨by simp, Nat.lt_of_lt_of_le hposition hcounted,
    fun hdepth => Nat.lt_of_lt_of_le hposition (tree.fits hdepth)⟩]
  rfl

theorem length_le_of_lt (hdepth : depth < 64) (tree : Tree depth) :
    tree.leaves.length ≤ 2 ^ 64 := by
  have hpower : 2 ^ depth ≤ 2 ^ 64 := Nat.pow_le_pow_right (by decide) (Nat.le_of_lt hdepth)
  exact Nat.le_trans (tree.fits hdepth) hpower

theorem witness_isSome (hdepth : depth < 64) (hposition : position < tree.leaves.length) :
    (tree.witness position).isSome :=
  witness_isSome_of_le hposition (length_le_of_lt hdepth tree)

theorem witness_eq_some (hwitness : tree.witness position = some witness) :
    position < tree.leaves.length ∧ witness.index = position ∧
      witness.siblings = (List.range depth).map fun level =>
        Merkle.nodeAt hashNode EMPTY_LEAF tree.leafNodes level ((position / 2 ^ level) ^^^ 1) := by
  unfold Tree.witness at hwitness
  by_cases hposition : position ≥ tree.leaves.length
  · rw [if_pos hposition] at hwitness
    cases hwitness
  · rw [if_neg hposition] at hwitness
    exact ⟨Nat.lt_of_not_le hposition, Witness.new_eq_some.1 hwitness⟩

-- The turns of a tree's own witness are the path from its position.
theorem turns_witness (hdepth : depth < 64) (hwitness : tree.witness position = some witness) :
    witness.turns = Merkle.path hashPair 0 tree.values depth position := by
  obtain ⟨_, hindex, hsiblings⟩ := witness_eq_some hwitness
  unfold Witness.turns Merkle.path
  rw [hindex, hsiblings]
  apply List.ext_getElem?
  intro level
  by_cases hlevel : level < depth
  · have hmod : level % 64 = level := Nat.mod_eq_of_lt (Nat.lt_trans hlevel hdepth)
    simp [hlevel, hmod, value_nodeAt]
  · simp [hlevel]

-- A tree's own witness folds the value of its slot to the root.
theorem climb_witness (hdepth : depth < 64) (hwitness : tree.witness position = some witness) :
    Merkle.climb hashPair (tree.values[position]?.getD 0) witness.turns =
      Merkle.nodeAt hashPair 0 tree.values depth 0 := by
  obtain ⟨hposition, _, _⟩ := witness_eq_some hwitness
  have hcapacity : position < 2 ^ depth := Nat.lt_of_lt_of_le hposition (tree.fits hdepth)
  have hclimb : Merkle.climb hashPair (Merkle.nodeAt hashPair 0 tree.values 0 position)
      (Merkle.path hashPair 0 tree.values depth position) =
      Merkle.nodeAt hashPair 0 tree.values depth (position / 2 ^ depth) :=
    Merkle.climb_path tree.values depth position
  rwa [Nat.div_eq_of_lt hcapacity, Merkle.nodeAt_zero, ← turns_witness hdepth hwitness] at hclimb

-- A tree's own witness verifies the value it was taken for.
theorem verifies_witness (hpositive : 1 ≤ depth) (hdepth : depth < 64) {leaf : Commitment}
    (hwitness : tree.witness position = some witness)
    (hleaf : tree.leaves[position]? = some leaf) : verifies leaf witness tree.root = true := by
  have hclimb := climb_witness hdepth hwitness
  have hroot := root_eq_toBytes tree (fun hzero => absurd hzero (by omega))
  rw [values, List.getElem?_map, hleaf, Option.map_some, Option.getD_some, ← values] at hclimb
  unfold verifies rootFrom fold
  rw [hclimb, hroot]
  exact decide_eq_true rfl

theorem length_le_of_occupiedHeight (tree : Tree depth) :
    tree.leaves.length ≤ 2 ^ tree.occupiedHeight := by
  unfold occupiedHeight
  by_cases hslots : tree.leaves.length ≤ 1
  · simp [hslots]
  · have hlog : tree.leaves.length - 1 < 2 ^ ((tree.leaves.length - 1).log2 + 1) :=
      Nat.lt_log2_self
    simp only [if_neg hslots]
    omega

theorem occupiedHeight_le (hdepth : depth < 64) (tree : Tree depth) :
    tree.occupiedHeight ≤ depth := by
  have hfits := tree.fits hdepth
  unfold occupiedHeight
  by_cases hslots : tree.leaves.length ≤ 1
  · simp [hslots]
  · have hlog : (tree.leaves.length - 1).log2 < depth :=
      (Nat.log2_lt (by omega)).2 (by omega)
    simp only [if_neg hslots]
    omega

-- A path cut at the occupied height refills to the whole witness.
theorem fromPrefix_take (hdepth : depth < 64) (hwitness : tree.witness position = some witness) :
    Witness.fromPrefix position (witness.siblings.take tree.occupiedHeight) = some witness := by
  obtain ⟨hposition, hindex, hsiblings⟩ := witness_eq_some hwitness
  have hheight := occupiedHeight_le hdepth tree
  have hlength : (witness.siblings.take tree.occupiedHeight).length = tree.occupiedHeight := by
    rw [List.length_take, witness.length_siblings, Nat.min_eq_left hheight]
  unfold Witness.fromPrefix
  rw [hlength, if_neg (Nat.not_lt.2 hheight), Witness.new_eq_some]
  refine ⟨hindex, ?_⟩
  have hempty : (List.range (depth - tree.occupiedHeight)).map
      (fun level => Witness.emptyNode (tree.occupiedHeight + level)) =
      witness.siblings.drop tree.occupiedHeight := by
    apply List.ext_getElem
    · rw [List.length_map, List.length_range, List.length_drop, witness.length_siblings]
    · intro level _ _
      have hcovered : tree.leafNodes.length ≤ 2 ^ (tree.occupiedHeight + level) := by
        have hpower : 2 ^ tree.occupiedHeight ≤ 2 ^ (tree.occupiedHeight + level) :=
          Nat.pow_le_pow_right (by decide) (Nat.le_add_right _ _)
        simpa [leafNodes] using Nat.le_trans (length_le_of_occupiedHeight tree) hpower
      have hreached : position < 2 ^ (tree.occupiedHeight + level) := by
        simp only [leafNodes, List.length_map] at hcovered
        omega
      simp only [List.getElem_map, List.getElem_range, List.getElem_drop, hsiblings]
      rw [Merkle.nodeAt_sibling_of_covered hcovered hreached]
      rfl
  rw [hempty, List.take_append_drop]

end Tree

end Nymora.Accumulator
