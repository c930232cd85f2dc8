import Nymora.Plonk.Tree
import Nymora.Plonk.Evaluate.Theorems
import Nymora.Accumulator.Tree.Paths

namespace Nymora.Plonk

open Nymora.Core
open Nymora.Crypto
open Nymora.Accumulator (hashPair)

namespace Tree

variable {depth : Nat} {tree : Tree depth} {leaves : List F}

-- The stored levels are those of the tree over these leaves.
structure Holds (tree : Tree depth) (leaves : List F) : Prop where
  nodes : tree.nodes = (List.range (depth + 1)).map (Merkle.level hashPair 0 leaves)
  zeros : tree.zeros = (List.range (depth + 1)).map (Merkle.emptyAt hashPair 0)

-- Part-way up an append: the levels up to one are over the new leaf, the others not yet.
structure Raised (tree : Tree depth) (leaves : List F) (leaf : F) (reached : Nat) : Prop where
  nodes : tree.nodes = (List.range (depth + 1)).map fun level =>
    if level ≤ reached then Merkle.level hashPair 0 (leaves ++ [leaf]) level
    else Merkle.level hashPair 0 leaves level
  zeros : tree.zeros = (List.range (depth + 1)).map (Merkle.emptyAt hashPair 0)

private theorem getElem?_range_map {α : Type} (f : Nat → α) {bound level : Nat}
    (hlevel : level < bound) : ((List.range bound).map f)[level]? = some (f level) := by
  rw [List.getElem?_map, List.getElem?_range hlevel, Option.map_some]

theorem holds_new : (new : Tree depth).Holds [] where
  nodes := by
    apply List.ext_getElem?
    intro level
    by_cases hlevel : level < depth + 1
    · have hempty : (Merkle.level hashPair 0 [] level).length ≤ 0 :=
        Merkle.length_level_le [] level 0 (by simp)
      rw [getElem?_range_map _ hlevel, List.eq_nil_of_length_eq_zero (Nat.le_zero.1 hempty)]
      exact List.getElem?_replicate_of_lt hlevel
    · simp [new, hlevel]
  zeros := by
    have hiterate : ∀ level, (fun z : F => Poseidon.hash [z, z])^[level] 0 =
        Merkle.emptyAt hashPair 0 level := by
      intro level
      induction level with
      | zero => rfl
      | succ level ih => rw [Function.iterate_succ_apply', ih]; rfl
    change List.iterate _ _ _ = _
    rw [← List.range_map_iterate]
    exact List.map_congr_left fun level _ => hiterate level

namespace Holds

theorem len (hholds : tree.Holds leaves) : tree.len = leaves.length := by
  rw [Tree.len, hholds.nodes, getElem?_range_map _ (Nat.succ_pos depth)]
  rfl

theorem node (hholds : tree.Holds leaves) {level : Nat} (hlevel : level ≤ depth) (index : Nat) :
    tree.node level index = Merkle.nodeAt hashPair 0 leaves level index := by
  rw [Tree.node, hholds.nodes, hholds.zeros, getElem?_range_map _ (Nat.lt_succ_of_le hlevel),
    getElem?_range_map _ (Nat.lt_succ_of_le hlevel)]
  rfl

theorem root (hholds : tree.Holds leaves) :
    tree.root = Merkle.nodeAt hashPair 0 leaves depth 0 :=
  hholds.node (Nat.le_refl depth) 0

theorem pushed (hholds : tree.Holds leaves) (leaf : F) :
    (tree.modifyLevel 0 (· ++ [leaf])).Raised leaves leaf 0 where
  nodes := by
    apply List.ext_getElem?
    intro level
    rw [getElem?_modifyLevel, hholds.nodes]
    by_cases hlevel : level < depth + 1
    · rw [getElem?_range_map _ hlevel, getElem?_range_map _ hlevel]
      cases level with
      | zero => rfl
      | succ level => rfl
    · simp [hlevel]
  zeros := hholds.zeros

end Holds

namespace Raised

variable {leaf : F} {reached : Nat}

theorem node (hraised : tree.Raised leaves leaf reached) {level : Nat} (hlevel : level ≤ reached)
    (hreached : reached ≤ depth) (index : Nat) :
    tree.node level index = Merkle.nodeAt hashPair 0 (leaves ++ [leaf]) level index := by
  have hbound : level < depth + 1 := by omega
  rw [Tree.node, hraised.nodes, hraised.zeros, getElem?_range_map _ hbound,
    getElem?_range_map _ hbound, Option.getD_some, if_pos hlevel]
  rfl

-- One more level: the ancestor of the leaf there is all the append changes.
theorem rehash (hraised : tree.Raised leaves leaf reached) (hreached : reached < depth) :
    (Tree.rehash (tree, leaves.length / 2 ^ reached) reached).1.Raised leaves leaf (reached + 1) ∧
      (Tree.rehash (tree, leaves.length / 2 ^ reached) reached).2 =
        leaves.length / 2 ^ (reached + 1) := by
  have hdiv : leaves.length / 2 ^ reached / 2 = leaves.length / 2 ^ (reached + 1) := by
    rw [pow_succ, Nat.div_div_eq_div_mul]
  have hvalue : Poseidon.hash [tree.node reached (leaves.length / 2 ^ (reached + 1) * 2),
      tree.node reached (leaves.length / 2 ^ (reached + 1) * 2 + 1)] =
        Merkle.nodeAt hashPair 0 (leaves ++ [leaf]) (reached + 1)
          (leaves.length / 2 ^ (reached + 1)) := by
    rw [hraised.node (Nat.le_refl _) (Nat.le_of_lt hreached),
      hraised.node (Nat.le_refl _) (Nat.le_of_lt hreached), Merkle.nodeAt_succ]
    rfl
  refine ⟨⟨?_, hraised.zeros⟩, hdiv⟩
  apply List.ext_getElem?
  intro level
  simp only [Tree.rehash, hdiv, hvalue]
  rw [getElem?_modifyLevel, hraised.nodes]
  by_cases hlevel : level < depth + 1
  · rw [getElem?_range_map _ hlevel, getElem?_range_map _ hlevel]
    rcases Nat.lt_trichotomy level (reached + 1) with hbelow | rfl | habove
    · rw [if_neg (Nat.ne_of_lt hbelow), if_pos (Nat.le_of_lt_succ hbelow),
        if_pos (Nat.le_of_lt hbelow)]
    · rw [if_pos rfl, if_neg (Nat.not_succ_le_self reached), if_pos (Nat.le_refl _),
        Merkle.level_concat]
      rfl
    · rw [if_neg (Nat.ne_of_gt habove), if_neg (by omega), if_neg (Nat.not_le.2 habove)]
  · simp [hlevel]

end Raised

-- After an append the stored levels are those over the leaves with the new one.
theorem Holds.append (hholds : tree.Holds leaves) (leaf : F)
    (hroom : ¬ (depth < 64 ∧ 2 ^ depth ≤ leaves.length)) :
    (tree.append leaf).1 = some leaves.length ∧ (tree.append leaf).2.Holds (leaves ++ [leaf]) := by
  have hclimb : ∀ reached ≤ depth,
      ((List.range reached).foldl Tree.rehash
        (tree.modifyLevel 0 (· ++ [leaf]), leaves.length)).1.Raised leaves leaf reached ∧
      ((List.range reached).foldl Tree.rehash
        (tree.modifyLevel 0 (· ++ [leaf]), leaves.length)).2 = leaves.length / 2 ^ reached := by
    intro reached
    induction reached with
    | zero =>
        intro _
        exact ⟨hholds.pushed leaf, by simp⟩
    | succ reached ih =>
        intro hreached
        obtain ⟨hraised, hindex⟩ := ih (Nat.le_of_succ_le hreached)
        have hstep := hraised.rehash hreached
        rw [← hindex] at hstep
        rw [List.range_succ, List.foldl_append, List.foldl_cons, List.foldl_nil]
        exact hstep
  obtain ⟨hraised, _⟩ := hclimb depth (Nat.le_refl depth)
  unfold Tree.append
  rw [hholds.len, if_neg hroom]
  refine ⟨rfl, ?_, hraised.zeros⟩
  refine hraised.nodes.trans (List.map_congr_left fun level hlevel => ?_)
  exact if_pos (Nat.le_of_lt_succ (List.mem_range.1 hlevel))

-- The workspace's leaf for a field element.
def encode (leaf : F) : Commitment := .fromBytes (Field.toBytes leaf)

-- The two trees over one list of leaves.
def Mirrors (native : Tree depth) (rebuilt : Accumulator.Tree depth) : Prop :=
  ∃ leaves, native.Holds leaves ∧ rebuilt.leaves = leaves.map encode

theorem canonical_encode {rebuilt : Accumulator.Tree depth}
    (hleaves : rebuilt.leaves = leaves.map encode) (leaf : Commitment)
    (hleaf : leaf ∈ rebuilt.leaves) :
    Field.toBytes (Field.fromWitnessBytes leaf.asBytes) = leaf.asBytes := by
  rw [hleaves] at hleaf
  obtain ⟨value, _, rfl⟩ := List.mem_map.1 hleaf
  rw [encode, Field.fromWitnessBytes_toBytes]

theorem values_of_encode {rebuilt : Accumulator.Tree depth}
    (hleaves : rebuilt.leaves = leaves.map encode) : rebuilt.values = leaves := by
  rw [Accumulator.Tree.values, hleaves, List.map_map]
  refine (List.map_congr_left fun leaf _ => ?_).trans (List.map_id leaves)
  exact Field.fromWitnessBytes_toBytes leaf

-- The path a tree gives out for one of its positions.
theorem Holds.witness (hholds : tree.Holds leaves) {position : Nat}
    (hposition : position < leaves.length) :
    ∃ native, tree.witness position = some native ∧
      native.siblings = (List.range depth).map (fun level =>
        Merkle.nodeAt hashPair 0 leaves level ((position / 2 ^ level) ^^^ 1)) ∧
      native.bits = (List.range depth).map position.testBit := by
  rw [Tree.witness, if_neg (by rw [hholds.len]; omega)]
  refine ⟨_, rfl, ?_, ?_⟩
  · apply List.map_congr_left
    intro level hlevel
    exact hholds.node (Nat.le_of_lt (List.mem_range.1 hlevel)) _
  · apply List.map_congr_left
    intro level _
    rw [Nat.testBit_eq_decide_div_mod_eq, Nat.and_one_is_mod]

-- One append on both sides: the same answer, and trees over one list again.
theorem Mirrors.append {native : Tree depth} {rebuilt : Accumulator.Tree depth}
    (hmirrors : Mirrors native rebuilt) (leaf : F) :
    (native.append leaf).1 = (rebuilt.appended (encode leaf)).1 ∧
      Mirrors (native.append leaf).2 (rebuilt.appended (encode leaf)).2 := by
  obtain ⟨leaves, hholds, hleaves⟩ := hmirrors
  have hlength : rebuilt.leaves.length = leaves.length := by rw [hleaves, List.length_map]
  rcases Accumulator.Tree.appended_cases rebuilt (encode leaf) with
    ⟨hfull, happended⟩ | ⟨next, htaken, hnext, happended⟩
  · have hcapacity := Accumulator.Tree.append_eq_none.1 hfull
    rw [hlength] at hcapacity
    have hrefused : native.append leaf = (none, native) := by
      rw [Tree.append, hholds.len, if_pos hcapacity]
    rw [hrefused, happended]
    exact ⟨rfl, leaves, hholds, hleaves⟩
  · have hroom : ¬ (depth < 64 ∧ 2 ^ depth ≤ leaves.length) := by
      rw [← hlength, ← Accumulator.Tree.append_eq_none, htaken]
      exact Option.some_ne_none _
    obtain ⟨hposition, hgrown⟩ := hholds.append leaf hroom
    rw [hposition, happended, hlength]
    refine ⟨rfl, leaves ++ [leaf], hgrown, ?_⟩
    rw [hnext, hleaves, List.map_append]
    rfl

theorem Mirrors.root {native : Tree depth} {rebuilt : Accumulator.Tree depth}
    (hmirrors : Mirrors native rebuilt) :
    Field.toBytes native.root = rebuilt.root.asBytes := by
  obtain ⟨leaves, hholds, hleaves⟩ := hmirrors
  rw [hholds.root, Accumulator.Tree.root_eq_toBytes rebuilt fun _ => canonical_encode hleaves,
    values_of_encode hleaves]

end Tree

theorem Path.ext_of_eq {depth : Nat} {left right : Path depth}
    (hsiblings : left.siblings = right.siblings) (hbits : left.bits = right.bits) :
    left = right := by
  cases left
  cases right
  simp only at hsiblings hbits
  subst hsiblings
  subst hbits
  rfl

-- Canonical siblings and the bits of the index are what a witness converts to.
theorem path_of_siblings {depth : Nat} (hdepth : depth < 64) {native : Path depth}
    {witness : Accumulator.Witness depth}
    (hsiblings : native.siblings.map Field.toBytes = witness.siblings.map Digest.asBytes)
    (hbits : native.bits = (List.range depth).map witness.index.testBit) :
    path witness = some native := by
  have hvalues : native.siblings = witness.siblings.map Accumulator.Node.value := by
    have hdecoded := congrArg (List.map Field.fromWitnessBytes) hsiblings
    rw [List.map_map, List.map_map] at hdecoded
    refine Eq.trans ?_ hdecoded
    refine ((List.map_congr_left fun value _ => ?_).trans (List.map_id _)).symm
    exact Field.fromWitnessBytes_toBytes value
  have hcanonical : ∀ sibling ∈ witness.siblings, sibling.asBytes.toNatLe < fieldOrder := by
    intro sibling hsibling
    have hbytes := List.mem_map_of_mem (f := Digest.asBytes) hsibling
    rw [← hsiblings] at hbytes
    obtain ⟨value, _, heq⟩ := List.mem_map.1 hbytes
    rw [← heq, Field.toNatLe_toBytes]
    exact value.isLt
  have hdecoded := decodeSiblings_eq_some.2 ⟨hcanonical, hvalues⟩
  have hconverts : ∃ converted, path witness = some converted := by
    unfold path
    split
    next hnone => rw [hdecoded] at hnone; cases hnone
    next => exact ⟨_, rfl⟩
  obtain ⟨converted, hconverted⟩ := hconverts
  obtain ⟨hconvertedSiblings, hconvertedBits⟩ := path_eq_some hconverted
  rw [hconverted, Path.ext_of_eq (hconvertedSiblings.trans hvalues.symm)]
  rw [hconvertedBits, hbits]
  apply List.map_congr_left
  intro level hlevel
  rw [Nat.mod_eq_of_lt (Nat.lt_trans (List.mem_range.1 hlevel) hdepth)]

-- A native path with the siblings and the directions of a workspace witness, which converts
-- to it.
structure Path.Matches {depth : Nat} (native : Path depth) (witness : Accumulator.Witness depth) :
    Prop where
  siblings : native.siblings.map Field.toBytes = witness.siblings.map Digest.asBytes
  bits : native.bits = (List.range depth).map witness.index.testBit
  converts : path witness = some native

namespace Tree

variable {depth : Nat}

theorem Mirrors.witness (hdepth : depth < 64) {native : Tree depth}
    {rebuilt : Accumulator.Tree depth} (hmirrors : Mirrors native rebuilt) (position : Nat) :
    Option.Rel Path.Matches (native.witness position) (rebuilt.witness position) := by
  obtain ⟨leaves, hholds, hleaves⟩ := hmirrors
  have hlength : rebuilt.leaves.length = leaves.length := by rw [hleaves, List.length_map]
  by_cases hposition : position < leaves.length
  · obtain ⟨path, hpath, hpathSiblings, hbits⟩ := hholds.witness hposition
    rw [← hlength] at hposition
    obtain ⟨witness, hwitness⟩ :=
      Option.isSome_iff_exists.1 (Accumulator.Tree.witness_isSome hdepth hposition)
    obtain ⟨_, hindex, hsiblings⟩ := Accumulator.Tree.witness_eq_some hwitness
    have hnodes : path.siblings.map Field.toBytes = witness.siblings.map Digest.asBytes := by
      rw [hpathSiblings, hsiblings, List.map_map, List.map_map]
      apply List.map_congr_left
      intro level _
      have hcanonical := rebuilt.nodeAt_canonical level ((position / 2 ^ level) ^^^ 1)
        fun _ => canonical_encode hleaves
      rwa [Accumulator.Tree.value_nodeAt, values_of_encode hleaves] at hcanonical
    rw [hpath, hwitness]
    refine Option.Rel.some ⟨hnodes, by rw [hbits, hindex], ?_⟩
    exact path_of_siblings hdepth hnodes (by rw [hbits, hindex])
  · have hnone : rebuilt.witness position = none := by
      rw [Accumulator.Tree.witness, if_pos (by omega)]
    rw [hnone, Tree.witness, if_pos (by rw [hholds.len]; omega)]
    exact Option.Rel.none

-- The tree a sequence of appends leaves, and what each returned.
def appendAll (leaves : List F) : Tree depth := Runs.final append new leaves

def positions (depth : Nat) (leaves : List F) : List (Option Nat) :=
  (Runs.events append (new : Tree depth) leaves).map Runs.Event.outcome

-- The incremental tree is the rebuilt one, after every sequence of appends: the answers, the
-- root and every path; and a converted path folds as the workspace's does.
theorem incremental_equals_rebuilt (hdepth : depth < 64) (leaves : List F) :
    positions depth leaves = Accumulator.Tree.positions depth (leaves.map encode) ∧
    Field.toBytes (appendAll leaves : Tree depth).root =
      (Accumulator.Tree.appendAll (leaves.map encode) : Accumulator.Tree depth).root.asBytes ∧
    (∀ position, Option.Rel Path.Matches ((appendAll leaves : Tree depth).witness position)
      ((Accumulator.Tree.appendAll (leaves.map encode) : Accumulator.Tree depth).witness
        position)) ∧
    ∀ (witness : Accumulator.Witness depth) (native : Path depth), path witness = some native →
      ∀ leaf, Field.toBytes (native.root leaf) = (Accumulator.fold leaf witness).asBytes := by
  have hstart : Mirrors (new : Tree depth) Accumulator.Tree.new := ⟨[], holds_new, rfl⟩
  obtain ⟨hpositions, hmirrors⟩ := Runs.simulates (fun _ _ leaf hmirrors =>
    Mirrors.append hmirrors leaf) hstart leaves
  refine ⟨hpositions, hmirrors.root, hmirrors.witness hdepth, ?_⟩
  intro witness native hpath leaf
  rw [root_of_path hpath]
  rfl

-- A depth-1 tree takes two of three leaves and refuses the third.
theorem incremental_equals_rebuilt_overfull :
    positions 1 [1, 2, 3] = Accumulator.Tree.positions 1 ([1, 2, 3].map encode) :=
  (incremental_equals_rebuilt (by decide) [1, 2, 3]).1

end Tree

end Nymora.Plonk
