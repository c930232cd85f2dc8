import Mathlib.Data.Nat.Bitwise
import Mathlib.Data.List.Induction
import Mathlib.Data.Set.Function
import Mathlib.Tactic.Ring

namespace Merkle

variable {α β : Type} (node : α → α → α) (empty : α)

-- The value of a wholly empty subtree of each height.
def emptyAt : Nat → α
  | 0 => empty
  | height + 1 => node (emptyAt height) (emptyAt height)

-- One level of occupied nodes from the level below, short pairs filled with its empty value.
def levelUp (filler : α) (below : List α) : List α :=
  (List.range ((below.length + 1) / 2)).map fun pair =>
    node (below[pair * 2]?.getD filler) (below[pair * 2 + 1]?.getD filler)

-- The occupied nodes of one level over a prefix of leaves.
def level (leaves : List α) : Nat → List α
  | 0 => leaves
  | height + 1 => levelUp node (emptyAt node empty height) (level leaves height)

def nodeAt (leaves : List α) (height index : Nat) : α :=
  (level node empty leaves height)[index]?.getD (emptyAt node empty height)

-- A node and its sibling in tree order: the flag says the node is the right child.
def ordered (current : α) (turn : Bool × α) : α × α :=
  if turn.1 then (turn.2, current) else (current, turn.2)

def join (current : α) (turn : Bool × α) : α :=
  node (ordered current turn).1 (ordered current turn).2

def climb (leaf : α) (path : List (Bool × α)) : α := path.foldl (join node) leaf

-- The path from a position: at each level the direction and the sibling there.
def path (leaves : List α) (depth position : Nat) : List (Bool × α) :=
  (List.range depth).map fun height =>
    (position.testBit height, nodeAt node empty leaves height ((position / 2 ^ height) ^^^ 1))

-- The position a path's directions spell.
def pathIndex : List (Bool × α) → Nat
  | [] => 0
  | (right, _) :: rest => right.toNat + 2 * pathIndex rest

variable {node empty}

@[simp] theorem climb_nil (leaf : α) : climb node leaf [] = leaf := rfl

theorem climb_concat (leaf : α) (turns : List (Bool × α)) (turn : Bool × α) :
    climb node leaf (turns ++ [turn]) = join node (climb node leaf turns) turn := by
  simp [climb]

@[simp] theorem length_path (leaves : List α) (depth position : Nat) :
    (path node empty leaves depth position).length = depth := by simp [path]

theorem path_succ (leaves : List α) (depth position : Nat) :
    path node empty leaves (depth + 1) position = path node empty leaves depth position ++
      [(position.testBit depth,
        nodeAt node empty leaves depth ((position / 2 ^ depth) ^^^ 1))] := by
  simp [path, List.range_succ]

theorem length_level_succ (leaves : List α) (height : Nat) :
    (level node empty leaves (height + 1)).length =
      ((level node empty leaves height).length + 1) / 2 := by simp [level, levelUp]

theorem length_level_le (leaves : List α) (height bound : Nat)
    (hbound : leaves.length ≤ 2 ^ height * bound) :
    (level node empty leaves height).length ≤ bound := by
  induction height generalizing bound with
  | zero => simpa [level] using hbound
  | succ height ih =>
      rw [length_level_succ]
      have hbelow := ih (2 * bound) (by rw [← Nat.mul_assoc, ← pow_succ]; exact hbound)
      omega

@[simp] theorem nodeAt_zero (leaves : List α) (index : Nat) :
    nodeAt node empty leaves 0 index = leaves[index]?.getD empty := rfl

theorem nodeAt_of_length_le (leaves : List α) (height index : Nat)
    (hindex : (level node empty leaves height).length ≤ index) :
    nodeAt node empty leaves height index = emptyAt node empty height := by
  simp [nodeAt, hindex]

-- Every node, occupied or not, joins the two below it.
theorem nodeAt_succ (leaves : List α) (height index : Nat) :
    nodeAt node empty leaves (height + 1) index =
      node (nodeAt node empty leaves height (index * 2))
        (nodeAt node empty leaves height (index * 2 + 1)) := by
  by_cases hindex : index < ((level node empty leaves height).length + 1) / 2
  · simp [nodeAt, level, levelUp, hindex]
  · have hlength : (level node empty leaves (height + 1)).length =
        ((level node empty leaves height).length + 1) / 2 := length_level_succ leaves height
    rw [nodeAt_of_length_le _ _ _ (by omega), nodeAt_of_length_le _ _ _ (by omega),
      nodeAt_of_length_le _ _ _ (by omega), emptyAt]

theorem nodeAt_congr {leaves other : List α} (depth index : Nat)
    (hleaves : ∀ position : Nat, leaves[position]?.getD empty = other[position]?.getD empty) :
    nodeAt node empty leaves depth index = nodeAt node empty other depth index := by
  induction depth generalizing index with
  | zero => exact hleaves index
  | succ depth ih => rw [nodeAt_succ, nodeAt_succ, ih, ih]

-- Completeness: climbing from a leaf along its own path reaches the node above it.
theorem climb_path (leaves : List α) (depth position : Nat) :
    climb node (nodeAt node empty leaves 0 position) (path node empty leaves depth position) =
      nodeAt node empty leaves depth (position / 2 ^ depth) := by
  induction depth with
  | zero => simp [path]
  | succ depth ih =>
      have hdiv : position / 2 ^ (depth + 1) = position / 2 ^ depth / 2 := by
        rw [pow_succ, Nat.div_div_eq_div_mul]
      have hbit : position.testBit depth = decide (position / 2 ^ depth % 2 = 1) :=
        Nat.testBit_eq_decide_div_mod_eq
      rw [path_succ, climb_concat, ih, nodeAt_succ, hdiv, hbit, join]
      rcases Nat.even_or_odd (position / 2 ^ depth) with heven | hodd
      · have hmod := Nat.even_iff.1 heven
        rw [Nat.xor_one_of_even heven]
        simp [ordered, hmod, Nat.div_mul_cancel (Nat.dvd_of_mod_eq_zero hmod)]
      · have hmod := Nat.odd_iff.1 hodd
        have hleft : position / 2 ^ depth - 1 = position / 2 ^ depth / 2 * 2 := by omega
        have hright : position / 2 ^ depth / 2 * 2 + 1 = position / 2 ^ depth := by omega
        rw [Nat.xor_one_of_odd hodd, hleft, hright]
        simp [ordered, hmod]

theorem pathIndex_concat (turns : List (Bool × α)) (turn : Bool × α) :
    pathIndex (turns ++ [turn]) = pathIndex turns + 2 ^ turns.length * turn.1.toNat := by
  induction turns with
  | nil => simp [pathIndex]
  | cons first turns ih =>
      simp only [List.cons_append, pathIndex, ih, List.length_cons, pow_succ]
      ring

theorem pathIndex_lt (turns : List (Bool × α)) : pathIndex turns < 2 ^ turns.length := by
  induction turns with
  | nil => simp [pathIndex]
  | cons first turns ih =>
      have hbit := first.1.toNat_le
      simp only [pathIndex, List.length_cons, pow_succ]
      omega

-- Bit by bit, the position is the directions.
theorem testBit_pathIndex (turns : List (Bool × α)) (level : Nat) :
    (pathIndex turns).testBit level = (turns[level]?.map Prod.fst).getD false := by
  induction turns generalizing level with
  | nil => simp [pathIndex]
  | cons first turns ih =>
      cases level with
      | zero =>
          obtain ⟨right, sibling⟩ := first
          cases right <;> simp [pathIndex, Nat.testBit_zero]
      | succ level =>
          have hbit := first.1.toNat_le
          have hhalf : pathIndex (first :: turns) / 2 = pathIndex turns := by
            rw [pathIndex]
            omega
          rw [Nat.testBit_succ, hhalf, ih, List.getElem?_cons_succ]

-- The pairs a climb hashes.
def climbQueries (node : α → α → α) : α → List (Bool × α) → List (α × α)
  | _, [] => []
  | leaf, turn :: rest => ordered leaf turn :: climbQueries node (join node leaf turn) rest

-- The pairs a tree's levels and empty values are hashed from.
def treeQueries (node : α → α → α) (empty : α) (leaves : List α) (depth : Nat) : List (α × α) :=
  (List.range depth).flatMap fun height =>
    (emptyAt node empty height, emptyAt node empty height) ::
      (List.range (((level node empty leaves height).length + 1) / 2)).map fun index =>
        (nodeAt node empty leaves height (index * 2),
          nodeAt node empty leaves height (index * 2 + 1))

theorem climbQueries_concat (leaf : α) (turns : List (Bool × α)) (turn : Bool × α) :
    climbQueries node leaf (turns ++ [turn]) =
      climbQueries node leaf turns ++ [ordered (climb node leaf turns) turn] := by
  induction turns generalizing leaf with
  | nil => rfl
  | cons first turns ih => simp [climbQueries, ih, climb]

theorem children_mem_treeQueries (leaves : List α) {depth height : Nat} (hheight : height < depth)
    (index : Nat) :
    (nodeAt node empty leaves height (index * 2), nodeAt node empty leaves height (index * 2 + 1)) ∈
      treeQueries node empty leaves depth := by
  refine List.mem_flatMap.2 ⟨height, List.mem_range.2 hheight, ?_⟩
  by_cases hindex : index < ((level node empty leaves height).length + 1) / 2
  · exact List.mem_cons_of_mem _ (List.mem_map.2 ⟨index, List.mem_range.2 hindex, rfl⟩)
  · rw [nodeAt_of_length_le _ _ _ (by omega), nodeAt_of_length_le _ _ _ (by omega)]
    exact List.mem_cons_self

theorem treeQueries_mono {leaves : List α} {shallow deep : Nat} (hdepth : shallow ≤ deep) :
    treeQueries node empty leaves shallow ⊆ treeQueries node empty leaves deep := by
  intro pair hpair
  obtain ⟨height, hheight, hmem⟩ := List.mem_flatMap.1 hpair
  exact List.mem_flatMap.2
    ⟨height, List.mem_range.2 (Nat.lt_of_lt_of_le (List.mem_range.1 hheight) hdepth), hmem⟩

-- Binding: where the node function is injective on every pair hashed, a climb that meets a
-- node of the tree started from the leaf its directions lead to.
theorem climb_binds {queries : Set (α × α)} {leaves : List α} {leaf : α}
    {turns : List (Bool × α)} {index : Nat}
    (hinjective : Set.InjOn (fun pair : α × α => node pair.1 pair.2) queries)
    (htree : ∀ pair ∈ treeQueries node empty leaves turns.length, pair ∈ queries)
    (hclimb : ∀ pair ∈ climbQueries node leaf turns, pair ∈ queries)
    (hmeets : climb node leaf turns = nodeAt node empty leaves turns.length index) :
    leaf = nodeAt node empty leaves 0 (index * 2 ^ turns.length + pathIndex turns) := by
  induction turns using List.reverseRecOn generalizing index with
  | nil => simpa [pathIndex] using hmeets
  | append_singleton turns turn ih =>
      simp only [List.length_append, List.length_singleton] at htree hmeets
      rw [climbQueries_concat] at hclimb
      rw [climb_concat, nodeAt_succ, join] at hmeets
      have hpair := hinjective (hclimb _ (by simp)) (htree _ (children_mem_treeQueries leaves (by omega) index)) hmeets
      have hbelow : climb node leaf turns =
          nodeAt node empty leaves turns.length (index * 2 + turn.1.toNat) := by
        cases hright : turn.1 with
        | true => simpa [ordered, hright] using congrArg Prod.snd hpair
        | false => simpa [ordered, hright] using congrArg Prod.fst hpair
      have hleaf := ih (fun pair hmem => htree pair (treeQueries_mono (by omega) hmem))
        (fun pair hmem => hclimb pair (List.mem_append_left _ hmem)) hbelow
      rw [hleaf, pathIndex_concat, List.length_append, List.length_singleton, pow_succ]
      congr 1
      ring

-- Above the height that covers the occupied prefix, every sibling on a path is empty.
theorem nodeAt_sibling_of_covered {leaves : List α} {height position : Nat}
    (hcovered : leaves.length ≤ 2 ^ height) (hposition : position < 2 ^ height) :
    nodeAt node empty leaves height ((position / 2 ^ height) ^^^ 1) =
      emptyAt node empty height := by
  have hlength : (level node empty leaves height).length ≤ 1 :=
    length_level_le leaves height 1 (by omega)
  rw [Nat.div_eq_of_lt hposition]
  exact nodeAt_of_length_le _ _ _ (by simpa using hlength)

-- A map that carries one node function to another carries trees to trees.
theorem map_nodeAt {node' : β → β → β} {empty' : β} (value : α → β)
    (hnode : ∀ left right, value (node left right) = node' (value left) (value right))
    (hempty : value empty = empty') (leaves : List α) (height index : Nat) :
    value (nodeAt node empty leaves height index) =
      nodeAt node' empty' (leaves.map value) height index := by
  induction height generalizing index with
  | zero => cases hleaf : leaves[index]? <;> simp [hleaf, hempty]
  | succ height ih => rw [nodeAt_succ, nodeAt_succ, hnode, ih, ih]

end Merkle
