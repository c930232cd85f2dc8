import Nymora.Accumulator.Tree.Theorems
import Nymora.Lib.Runs

namespace Nymora.Accumulator

open Nymora.Core
open Nymora.Crypto

namespace Tree

variable {depth : Nat} {tree : Tree depth}

-- One append as the source has it: the outcome, and the tree it leaves.
def appended (tree : Tree depth) (value : Commitment) : Option Nat × Tree depth :=
  match tree.append value with
  | none => (none, tree)
  | some (position, next) => (some position, next)

-- The tree a sequence of appends leaves, refused ones included, and what each returned.
def appendAll (values : List Commitment) : Tree depth := Runs.final appended new values

def positions (depth : Nat) (values : List Commitment) : List (Option Nat) :=
  (Runs.events appended (new : Tree depth) values).map Runs.Event.outcome

theorem appended_cases (tree : Tree depth) (value : Commitment) :
    (tree.append value = none ∧ tree.appended value = (none, tree)) ∨
      ∃ next, tree.append value = some (tree.leaves.length, next) ∧
        next.leaves = tree.leaves ++ [value] ∧
        tree.appended value = (some tree.leaves.length, next) := by
  unfold appended
  cases happend : tree.append value with
  | none => exact Or.inl ⟨rfl, rfl⟩
  | some outcome =>
      obtain ⟨position, next⟩ := outcome
      obtain ⟨_, hposition, hleaves⟩ := append_eq_some.1 happend
      subst hposition
      exact Or.inr ⟨next, rfl, hleaves, rfl⟩

-- While there is room, the values stand where their appends said.
theorem events_of_room (tree : Tree depth) (values : List Commitment)
    (hroom : tree.leaves.length + values.length ≤ 2 ^ depth) :
    (Runs.events appended tree values).map Runs.Event.outcome =
        (List.range' tree.leaves.length values.length).map some ∧
      (Runs.final appended tree values).leaves = tree.leaves ++ values := by
  induction values generalizing tree with
  | nil => simp
  | cons value rest ih =>
      rw [List.length_cons] at hroom
      rcases appended_cases tree value with ⟨hfull, _⟩ | ⟨next, _, hleaves, happended⟩
      · have hcapacity := append_eq_none.1 hfull
        omega
      · have hlength : next.leaves.length = tree.leaves.length + 1 := by simp [hleaves]
        obtain ⟨hpositions, hrest⟩ := ih next (by omega)
        rw [Runs.events_cons, Runs.final_cons, Runs.event, happended, List.map_cons, hpositions,
          hrest, hlength, hleaves, List.length_cons, List.range'_succ, List.map_cons,
          List.append_assoc]
        exact ⟨rfl, rfl⟩

theorem length_le_final (tree : Tree depth) (values : List Commitment) :
    tree.leaves.length ≤ (Runs.final appended tree values).leaves.length := by
  induction values generalizing tree with
  | nil => exact Nat.le_refl _
  | cons value rest ih =>
      have hrest := ih (tree.appended value).2
      rw [Runs.final_cons]
      rcases appended_cases tree value with ⟨_, happended⟩ | ⟨next, _, hleaves, happended⟩
      · rw [happended] at hrest ⊢
        exact hrest
      · rw [happended] at hrest ⊢
        rw [hleaves, List.length_append] at hrest
        exact Nat.le_of_succ_le hrest

-- Every position an append returned is still occupied at the end.
theorem lt_of_mem_events {tree : Tree depth} {values : List Commitment} {position : Nat}
    (hposition : some position ∈ (Runs.events appended tree values).map Runs.Event.outcome) :
    position < (Runs.final appended tree values).leaves.length := by
  induction values generalizing tree with
  | nil => cases hposition
  | cons value rest ih =>
      rw [Runs.final_cons]
      rcases List.mem_cons.1 hposition with hhead | hlater
      · rcases appended_cases tree value with ⟨_, happended⟩ | ⟨next, _, hleaves, happended⟩
        · rw [Runs.event, happended] at hhead
          cases hhead
        · have hkept := length_le_final next rest
          rw [Runs.event, happended] at hhead
          rw [hleaves, List.length_append, ← Option.some_inj.1 hhead] at hkept
          rw [happended]
          exact Nat.lt_of_succ_le hkept
      · exact ih hlater

-- Position binding: a path at an index of the adversary's choice leads from the value
-- appended there, or from zero where nothing was.
theorem value_of_verifies (hdepth : depth < 64) {value : Commitment} {witness : Witness depth}
    (hinjective : Set.InjOn (fun pair : F × F => hashPair pair.1 pair.2)
      {pair | [pair.1, pair.2] ∈
        tree.rootQueries ++ witness.foldQueries (Field.fromWitnessBytes value.asBytes)})
    (hverifies : verifies value witness tree.root = true) :
    Field.fromWitnessBytes value.asBytes = tree.values[witness.index]?.getD 0 := by
  have hspelled := Merkle.pathIndex_lt witness.turns
  have hpower : 2 ^ depth ≤ 2 ^ 64 := Nat.pow_le_pow_right (by decide) (Nat.le_of_lt hdepth)
  rw [witness.length_turns] at hspelled
  rw [climb_slot (List.Subset.refl _) hinjective (climb_of_verifies hverifies),
    witness.pathIndex_turns (by omega)]

-- Merkle correctness and position binding: up to capacity every appended value has a path to
-- the root, and every path to the root leads from the value its index names.
theorem paths_verify_and_bind (hpositive : 1 ≤ depth) (hdepth : depth < 64)
    (values : List Commitment) (hcapacity : values.length ≤ 2 ^ depth) :
    positions depth values = (List.range values.length).map some ∧
    (∀ position value, values[position]? = some value →
      ∃ witness, (appendAll values : Tree depth).witness position = some witness ∧
        verifies value witness (appendAll values : Tree depth).root = true) ∧
    ∀ (value : Commitment) (witness : Witness depth),
      Set.InjOn (fun pair : F × F => hashPair pair.1 pair.2)
        {pair | [pair.1, pair.2] ∈ (appendAll values : Tree depth).rootQueries ++
          witness.foldQueries (Field.fromWitnessBytes value.asBytes)} →
      verifies value witness (appendAll values : Tree depth).root = true →
      Field.fromWitnessBytes value.asBytes = (values[witness.index]?.map fun appended =>
        Field.fromWitnessBytes appended.asBytes).getD 0 := by
  obtain ⟨hpositions, hleaves⟩ := events_of_room (new : Tree depth) values
    (by simpa [new] using hcapacity)
  rw [show (new : Tree depth).leaves = [] from rfl, List.nil_append, ← appendAll] at hleaves
  refine ⟨?_, ?_, ?_⟩
  · rw [positions, hpositions, List.range_eq_range']
    rfl
  · intro position value hvalue
    have hplaced := (List.getElem?_eq_some_iff.1 hvalue).1
    rw [← hleaves] at hplaced hvalue
    obtain ⟨witness, hwitness⟩ := Option.isSome_iff_exists.1 (witness_isSome hdepth hplaced)
    exact ⟨witness, hwitness, verifies_witness hpositive hdepth hwitness hvalue⟩
  · intro value witness hinjective hverifies
    rw [value_of_verifies hdepth hinjective hverifies, Tree.values, hleaves, List.getElem?_map]

-- Three leaves, and the path at the one slot they leave free of four.
def threeLeaves : List Commitment :=
  [.fromBytes (Bytes.replicate 32 5), .fromBytes (Bytes.replicate 32 6),
    .fromBytes (Bytes.replicate 32 7)]

def freePath : Witness 2 where
  index := threeLeaves.length
  siblings := [.fromBytes (Bytes.replicate 32 7),
    hashNode (.fromBytes (Bytes.replicate 32 5)) (.fromBytes (Bytes.replicate 32 6))]
  length_siblings := rfl
  index_lt := by decide
  index_lt_depth := fun _ => by decide

theorem freePath_verifies : Poseidon.CollisionFree
      ((appendAll threeLeaves : Tree 2).rootQueries ++
        freePath.foldQueries (Field.fromWitnessBytes (Bytes.zero DIGEST_LEN))) ∧
    verifies (.fromBytes (Bytes.zero DIGEST_LEN)) freePath
      (appendAll threeLeaves : Tree 2).root = true := by
  decide +kernel

-- Each of the three verifies under its own path, and the free slot's path from zero alone.
theorem paths_verify_and_bind_free_slot :
    (∀ position value, threeLeaves[position]? = some value →
      ∃ witness, (appendAll threeLeaves : Tree 2).witness position = some witness ∧
        verifies value witness (appendAll threeLeaves : Tree 2).root = true) ∧
    Field.fromWitnessBytes (Bytes.zero DIGEST_LEN) = (threeLeaves[3]?.map fun appended =>
      Field.fromWitnessBytes appended.asBytes).getD 0 := by
  obtain ⟨_, hpaths, hbinds⟩ :=
    paths_verify_and_bind (by decide : 1 ≤ 2) (by decide) threeLeaves (by decide)
  exact ⟨hpaths, hbinds (.fromBytes (Bytes.zero DIGEST_LEN)) freePath
    (hashPair_injOn freePath_verifies.1) freePath_verifies.2⟩

-- The empty value stands where an empty slot already did.
theorem getElem?_leafNodes_pad {padded : Tree depth} {position : Nat}
    (hpad : tree.append (.fromBytes (Bytes.zero DIGEST_LEN)) = some (position, padded))
    (slot : Nat) :
    padded.leafNodes[slot]?.getD EMPTY_LEAF = tree.leafNodes[slot]?.getD EMPTY_LEAF := by
  have hleaves := (append_eq_some.1 hpad).2.2
  have hnodes : padded.leafNodes = tree.leafNodes ++ [EMPTY_LEAF] := by
    rw [leafNodes, leafNodes, hleaves, List.map_append]
    rfl
  rw [hnodes]
  by_cases hslot : slot < tree.leafNodes.length
  · rw [List.getElem?_append_left hslot]
  · have hbeyond : tree.leafNodes.length ≤ slot := Nat.le_of_not_lt hslot
    rw [List.getElem?_append_right hbeyond, List.getElem?_eq_none hbeyond]
    cases slot - tree.leafNodes.length <;> rfl

theorem nodeAt_pad {padded : Tree depth} {position : Nat}
    (hpad : tree.append (.fromBytes (Bytes.zero DIGEST_LEN)) = some (position, padded))
    (level index : Nat) : Merkle.nodeAt hashNode EMPTY_LEAF padded.leafNodes level index =
      Merkle.nodeAt hashNode EMPTY_LEAF tree.leafNodes level index :=
  Merkle.nodeAt_congr level index (getElem?_leafNodes_pad hpad)

-- A pad leaves the root and every earlier path as they were.
theorem root_pad {padded : Tree depth} {position : Nat}
    (hpad : tree.append (.fromBytes (Bytes.zero DIGEST_LEN)) = some (position, padded)) :
    padded.root = tree.root := by
  rw [root_eq, root_eq, nodeAt_pad hpad]

theorem witness_pad {padded : Tree depth} {position slot : Nat}
    (hpad : tree.append (.fromBytes (Bytes.zero DIGEST_LEN)) = some (position, padded))
    (hslot : slot < tree.leaves.length) : padded.witness slot = tree.witness slot := by
  have hleaves := (append_eq_some.1 hpad).2.2
  have hkept : slot < padded.leaves.length := by
    rw [hleaves, List.length_append]
    omega
  have hsiblings : ∀ level, (padded.occupiedLevels level)[(slot / 2 ^ level) ^^^ 1]?.getD
      (emptyLevels level) =
        (tree.occupiedLevels level)[(slot / 2 ^ level) ^^^ 1]?.getD (emptyLevels level) :=
    fun level => nodeAt_pad hpad level _
  unfold witness
  rw [if_neg (Nat.not_le.2 hkept), if_neg (Nat.not_le.2 hslot)]
  simp only [hsiblings]

-- Truncated paths refill to the whole path, at every occupancy; and a pad changes nothing.
theorem truncated_paths_refill (hdepth : depth < 64) (values : List Commitment) :
    (appendAll values : Tree depth).occupiedHeight ≤ depth ∧
    (∀ position, some position ∈ positions depth values →
      ∃ witness, (appendAll values : Tree depth).witness position = some witness ∧
        ∃ refilled, Witness.fromPrefix position (witness.siblings.take
            (appendAll values : Tree depth).occupiedHeight) = some refilled ∧
          refilled = witness ∧ ∀ value, rootFrom value refilled = rootFrom value witness) ∧
    ∀ position padded, (appendAll values : Tree depth).append
        (.fromBytes (Bytes.zero DIGEST_LEN)) = some (position, padded) →
      padded.root = (appendAll values : Tree depth).root ∧
        ∀ earlier, some earlier ∈ positions depth values →
          padded.witness earlier = (appendAll values : Tree depth).witness earlier := by
  refine ⟨occupiedHeight_le hdepth _, ?_, ?_⟩
  · intro position hposition
    obtain ⟨witness, hwitness⟩ := Option.isSome_iff_exists.1
      (witness_isSome hdepth (lt_of_mem_events hposition))
    exact ⟨witness, hwitness, witness, fromPrefix_take hdepth hwitness, rfl, fun _ => rfl⟩
  · intro position padded hpad
    exact ⟨root_pad hpad, fun earlier hearlier =>
      witness_pad hpad (lt_of_mem_events hearlier)⟩

-- Under a tree of depth 5 the last of the three is sent two of its five siblings, which refill to
-- the whole path; a pad goes to the next slot and leaves root and path as they were.
theorem truncated_paths_refill_three :
    (appendAll threeLeaves : Tree 5).occupiedHeight = 2 ∧
    (∃ witness, (appendAll threeLeaves : Tree 5).witness 2 = some witness ∧
      Witness.fromPrefix 2 (witness.siblings.take 2) = some witness) ∧
    ∃ padded, (appendAll threeLeaves : Tree 5).append (.fromBytes (Bytes.zero DIGEST_LEN)) =
        some (3, padded) ∧ padded.root = (appendAll threeLeaves : Tree 5).root ∧
      padded.witness 2 = (appendAll threeLeaves : Tree 5).witness 2 := by
  obtain ⟨_, hpaths, hpads⟩ := truncated_paths_refill (by decide : 5 < 64) threeLeaves
  have hheight : (appendAll threeLeaves : Tree 5).occupiedHeight = 2 := by decide
  have hplaced : some 2 ∈ positions 5 threeLeaves := by decide
  obtain ⟨witness, hwitness, refilled, hrefilled, rfl, _⟩ := hpaths 2 hplaced
  rw [hheight] at hrefilled
  refine ⟨hheight, ⟨refilled, hwitness, hrefilled⟩, ?_⟩
  obtain ⟨padded, hpad⟩ : ∃ padded, (appendAll threeLeaves : Tree 5).append
      (.fromBytes (Bytes.zero DIGEST_LEN)) = some (3, padded) := ⟨_, rfl⟩
  obtain ⟨hroot, hkept⟩ := hpads 3 padded hpad
  exact ⟨padded, hpad, hroot, hkept 2 hplaced⟩

end Tree

end Nymora.Accumulator
