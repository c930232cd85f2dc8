import Nymora.Accumulator.Exclusion.Theorems
import Mathlib.Data.List.Dedup

namespace Nymora.Accumulator

open Nymora.Core
open Nymora.Crypto

namespace ExclusionSet

variable {depth : Nat} {set : ExclusionSet depth}

theorem length_gaps (set : ExclusionSet depth) : set.gaps.length = set.keys.length + 1 := by
  simp [gaps, bounds]

-- Gaps the tree has room for are all appended, in order.
theorem leaves_foldl (gaps : List (Bytes 32 × Bytes 32)) {tree : Tree depth}
    (hfits : tree.leaves.length + gaps.length ≤ 2 ^ depth) :
    (gaps.foldl (fun tree gap =>
      match tree.append (.fromBytes (Field.toBytes (gapLeaf gap.1 gap.2))) with
      | some (_, appended) => appended
      | none => tree) tree).leaves = tree.leaves ++
        gaps.map fun gap => .fromBytes (Field.toBytes (gapLeaf gap.1 gap.2)) := by
  induction gaps generalizing tree with
  | nil => simp
  | cons gap gaps ih =>
      rw [List.length_cons] at hfits
      cases happend : tree.append (.fromBytes (Field.toBytes (gapLeaf gap.1 gap.2))) with
      | none =>
          have hfull := Tree.append_eq_none.1 happend
          omega
      | some outcome =>
          obtain ⟨position, appended⟩ := outcome
          have hleaves := (Tree.append_eq_some.1 happend).2.2
          have happended : appended.leaves.length + gaps.length ≤ 2 ^ depth := by
            rw [hleaves, List.length_append]
            simp
            omega
          rw [List.foldl_cons, happend, ih happended, hleaves, List.append_assoc]
          rfl

theorem leaves_tree (hroom : set.keys.length + 1 ≤ 2 ^ depth) :
    set.tree.leaves =
      set.gaps.map fun gap => .fromBytes (Field.toBytes (gapLeaf gap.1 gap.2)) := by
  apply leaves_foldl set.gaps
  rw [length_gaps]
  simpa [Tree.new] using hroom

theorem values_tree (hroom : set.keys.length + 1 ≤ 2 ^ depth) :
    set.tree.values = set.gaps.map fun gap => gapLeaf gap.1 gap.2 := by
  rw [Tree.values, leaves_tree hroom, List.map_map]
  apply List.map_congr_left
  intro gap _
  exact Field.fromWitnessBytes_toBytes _

-- The keys at or below a target, counted in the collection's byte order.
theorem countP_keySet (set : ExclusionSet depth) (target : Bytes 32) :
    (set.keySet.toList.countP fun other => (compare other (toOrdering target)).isLE) =
      set.keys.countP fun key => decide (key.toNatLe ≤ target.toNatLe) := by
  rw [keys, List.countP_map]
  apply List.countP_congr
  intro other _
  have hcompare := Bytes.compare_reverse other.reverse target
  rw [Bytes.reverse_reverse] at hcompare
  rw [toOrdering, hcompare, Nat.isLE_compare]
  exact decide_eq_true_iff.symm

-- The gap handed out is the one after the keys at or below the target.
theorem absenceWitness_eq (set : ExclusionSet depth) (key : Bytes 32) :
    set.absenceWitness key =
      set.gaps[set.keys.countP fun other =>
        decide (other.toNatLe ≤ (truncateKey key).toNatLe)]?.bind fun gap =>
          (set.tree.witness (set.keys.countP fun other =>
            decide (other.toNatLe ≤ (truncateKey key).toNatLe))).map fun witness =>
              ⟨gap.1, gap.2, witness⟩ := by
  rw [← countP_keySet]
  unfold absenceWitness
  simp only [Option.bind_eq_bind, Option.pure_def, Option.map_eq_bind, Function.comp_def]

-- A key is handed the gap it falls into, with the path of that gap's leaf.
theorem absenceWitness_eq_some (hdepth : depth < 64) (hroom : set.keys.length + 1 ≤ 2 ^ depth)
    (key : Bytes 32) : ∃ witness, set.absenceWitness key = some witness ∧
      (witness.low, witness.high) ∈ set.gaps ∧
      (witness.low.toNatLe < (truncateKey key).toNatLe ∧
          (truncateKey key).toNatLe < witness.high.toNatLe ↔
        truncateKey key ∉ set.keys ∧ (truncateKey key).toNatLe ≠ 0 ∧
          (truncateKey key).toNatLe ≠ 2 ^ KEY_BITS - 1) ∧
      Merkle.climb hashPair (gapLeaf witness.low witness.high) witness.witness.turns =
        Merkle.nodeAt hashPair 0 set.tree.values depth 0 := by
  obtain ⟨gap, hgap, hinside⟩ := set.located key
  have hleaf : set.tree.values[set.keys.countP fun other =>
      decide (other.toNatLe ≤ (truncateKey key).toNatLe)]? = some (gapLeaf gap.1 gap.2) := by
    rw [values_tree hroom, List.getElem?_map]
    exact congrArg _ hgap
  have hplaced := (List.getElem?_eq_some_iff.1 hleaf).1
  rw [Tree.values, List.length_map] at hplaced
  obtain ⟨witness, hwitness⟩ := Option.isSome_iff_exists.1 (Tree.witness_isSome hdepth hplaced)
  have hclimb := Tree.climb_witness hdepth hwitness
  rw [hleaf, Option.getD_some] at hclimb
  refine ⟨⟨gap.1, gap.2, witness⟩, ?_, List.mem_of_getElem? hgap, hinside, hclimb⟩
  rw [absenceWitness_eq, hgap, Option.bind_some, hwitness, Option.map_some]

-- Completeness: the honest witness verifies for every key that is neither present nor a
-- sentinel, and for no other.
theorem verifiesAbsent_absenceWitness (hdepth : depth < 64)
    (hroom : set.keys.length + 1 ≤ 2 ^ depth) (key : Bytes 32) :
    ∃ witness, set.absenceWitness key = some witness ∧
      (verifiesAbsent key witness set.root = true ↔
        truncateKey key ∉ set.keys ∧ (truncateKey key).toNatLe ≠ 0 ∧
          (truncateKey key).toNatLe ≠ 2 ^ KEY_BITS - 1) := by
  obtain ⟨witness, hwitness, hgap, hinside, hclimb⟩ := absenceWitness_eq_some hdepth hroom key
  refine ⟨witness, hwitness, ?_⟩
  obtain ⟨hlow, hhigh⟩ := Gaps.mem_of_mem_gaps hgap
  have hfold : (fold (gapLeaf witness.low witness.high) witness.witness).asBytes =
      set.root.asBytes := by
    rw [fold, hclimb, root_eq]
  rw [← hinside, verifiesAbsent, if_neg]
  · simp only [Bool.and_eq_true, ctLess_iff, decide_eq_true_eq, hfold, and_true]
  · rw [truncateKey_of_mem_bounds hlow, truncateKey_of_mem_bounds hhigh]
    simp

theorem ext_keySet {left right : ExclusionSet depth} (hkeys : left.keySet = right.keySet) :
    left = right := by
  cases left
  cases right
  simp only at hkeys
  subst hkeys
  rfl

-- A set is its truncated keys, whatever was inserted and in whichever order.
theorem ext_keys {left right : ExclusionSet depth}
    (hkeys : ∀ key, key ∈ left.keys ↔ key ∈ right.keys) : left = right := by
  apply ext_keySet
  apply Std.ExtTreeSet.ext_mem
  intro other
  have hother := hkeys other.reverse
  rwa [mem_keys, mem_keys, toOrdering, Bytes.reverse_reverse] at hother

-- A collection of distinct keys has as many as there are distinct truncations.
theorem length_keys_foldl_insert (depth : Nat) (inserted : List (Bytes 32)) :
    (inserted.foldl insert (new : ExclusionSet depth)).keys.length =
      (inserted.map truncateKey).dedup.length := by
  apply List.Perm.length_eq
  refine (List.perm_ext_iff_of_nodup ?_ (List.nodup_dedup _)).2 fun key => ?_
  · refine (keys_sorted _).imp ?_
    rintro low high hlt rfl
    exact Nat.lt_irrefl _ hlt
  · rw [mem_keys_foldl_insert, List.mem_dedup, List.mem_map]
    simp [eq_comm]

theorem keys_foldl_insert_keys (set : ExclusionSet depth) :
    set.keys.foldl insert (new : ExclusionSet depth) = set := by
  apply ext_keys
  intro key
  rw [mem_keys_foldl_insert]
  constructor
  · rintro (⟨other, hother, rfl⟩ | hnew)
    · rwa [truncateKey_of_mem_keys hother]
    · exact absurd hnew (not_mem_keys_new key)
  · exact fun hkey => Or.inl ⟨key, hkey, (truncateKey_of_mem_keys hkey).symm⟩

-- Exclusion completeness and canonicity, over every insertion sequence: the honest witness
-- exists for every key and verifies for exactly the absent ones strictly between the
-- sentinels; the root and the witnesses are those of the set of truncations.
theorem absence_complete_and_canonical (hdepth : depth < 64) (inserted : List (Bytes 32))
    (hcapacity : (inserted.map truncateKey).dedup.length ≤ 2 ^ depth - 1) :
    (∀ key, ∃ witness,
      (inserted.foldl insert (new : ExclusionSet depth)).absenceWitness key = some witness ∧
        (verifiesAbsent key witness (inserted.foldl insert (new : ExclusionSet depth)).root =
            true ↔
          truncateKey key ∉ inserted.map truncateKey ∧ (truncateKey key).toNatLe ≠ 0 ∧
            (truncateKey key).toNatLe ≠ 2 ^ 253 - 1)) ∧
    (∀ others : List (Bytes 32),
      (∀ key, key ∈ others.map truncateKey ↔ key ∈ inserted.map truncateKey) →
        (others.foldl insert (new : ExclusionSet depth)).root =
            (inserted.foldl insert (new : ExclusionSet depth)).root ∧
          ∀ key, (others.foldl insert (new : ExclusionSet depth)).absenceWitness key =
            (inserted.foldl insert (new : ExclusionSet depth)).absenceWitness key) ∧
    ((inserted.foldl insert (new : ExclusionSet depth)).keys.foldl insert
          (new : ExclusionSet depth)).root =
        (inserted.foldl insert (new : ExclusionSet depth)).root ∧
      ∀ key, ((inserted.foldl insert (new : ExclusionSet depth)).keys.foldl insert
          (new : ExclusionSet depth)).absenceWitness key =
        (inserted.foldl insert (new : ExclusionSet depth)).absenceWitness key := by
  have hmem : ∀ (others : List (Bytes 32)) (key : Bytes 32),
      key ∈ (others.foldl insert (new : ExclusionSet depth)).keys ↔
        key ∈ others.map truncateKey := by
    intro others key
    rw [mem_keys_foldl_insert, List.mem_map]
    simp [eq_comm]
  have hroom : (inserted.foldl insert (new : ExclusionSet depth)).keys.length + 1 ≤ 2 ^ depth := by
    have hpositive : 0 < 2 ^ depth := Nat.two_pow_pos depth
    rw [length_keys_foldl_insert]
    omega
  refine ⟨?_, ?_, ?_⟩
  · intro key
    obtain ⟨witness, hwitness, hverifies⟩ := verifiesAbsent_absenceWitness hdepth hroom key
    rw [hmem] at hverifies
    exact ⟨witness, hwitness, hverifies⟩
  · intro others hsame
    have hset : others.foldl insert (new : ExclusionSet depth) = inserted.foldl insert new := by
      apply ext_keys
      intro key
      rw [hmem, hmem, hsame]
    rw [hset]
    exact ⟨rfl, fun _ => rfl⟩
  · rw [keys_foldl_insert_keys]
    exact ⟨rfl, fun _ => rfl⟩

-- A depth-1 tree at its capacity: one key twice, the two gaps on its sides.
theorem absence_complete_and_canonical_full :
    ∃ witness,
      ([Bytes.replicate 32 7, Bytes.replicate 32 7].foldl insert
        (new : ExclusionSet 1)).absenceWitness (Bytes.replicate 32 2) = some witness ∧
      (verifiesAbsent (Bytes.replicate 32 2) witness
          ([Bytes.replicate 32 7, Bytes.replicate 32 7].foldl insert (new : ExclusionSet 1)).root =
        true ↔ truncateKey (Bytes.replicate 32 2) ∉
            [Bytes.replicate 32 7, Bytes.replicate 32 7].map truncateKey ∧
          (truncateKey (Bytes.replicate 32 2)).toNatLe ≠ 0 ∧
          (truncateKey (Bytes.replicate 32 2)).toNatLe ≠ 2 ^ 253 - 1) :=
  (absence_complete_and_canonical (by decide) _ (by decide +kernel)).1 _

end ExclusionSet

end Nymora.Accumulator
