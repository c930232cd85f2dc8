import Nymora.Accumulator.Witness

namespace Nymora.Accumulator

open Nymora.Core
open Nymora.Crypto

-- The node value standing for an empty position: the field's zero.
def EMPTY_LEAF : Node := Node.zero

-- Whether a tree of this depth can hold this many leaves; a depth of 64 or more is not
-- counted.
def Fits (depth count : Nat) : Prop := depth < 64 → count ≤ 2 ^ depth

-- A fixed-depth append-only Merkle tree: its occupied prefix.
structure Tree (depth : Nat) where
  leaves : List Commitment
  fits : Fits depth leaves.length

namespace Tree

variable {depth : Nat}

def new : Tree depth := ⟨[], fun _ => Nat.zero_le _⟩

def capacity (depth : Nat) : Option Nat := if depth < 64 then some (2 ^ depth) else none

theorem full_iff {position : Nat} : (capacity depth).any (fun max => position ≥ max) = true ↔
    depth < 64 ∧ 2 ^ depth ≤ position := by
  unfold capacity
  split
  case isTrue hdepth => simp [hdepth]
  case isFalse hdepth => simp [hdepth]

-- Appends a value, returning the position it took; `none` when the tree is full.
def append (tree : Tree depth) (value : Commitment) : Option (Nat × Tree depth) :=
  let position := tree.leaves.length
  if hfull : (capacity depth).any fun max => position ≥ max then none
  else some (position, ⟨tree.leaves ++ [value], fun hdepth => by
    have hroom : position < 2 ^ depth :=
      Nat.lt_of_not_le fun hle => hfull (full_iff.2 ⟨hdepth, hle⟩)
    simpa using Nat.succ_le_of_lt hroom⟩)

-- The number of levels at which a path's sibling can be anything but empty.
def occupiedHeight (tree : Tree depth) : Nat :=
  let slots := tree.leaves.length
  if slots ≤ 1 then 0 else (slots - 1).log2 + 1

def emptyLevels (level : Nat) : Node := Merkle.emptyAt hashNode EMPTY_LEAF level

def leafNodes (tree : Tree depth) : List Node :=
  tree.leaves.map fun leaf => .fromBytes leaf.asBytes

-- Every occupied node of one level, the leaves entering as themselves.
def occupiedLevels (tree : Tree depth) (level : Nat) : List Node :=
  Merkle.level hashNode EMPTY_LEAF tree.leafNodes level

def root (tree : Tree depth) : Root :=
  .fromBytes ((tree.occupiedLevels depth).head?.getD (emptyLevels depth)).asBytes

-- The inclusion witness for a position, if a value was appended there.
def witness (tree : Tree depth) (position : Nat) : Option (Witness depth) :=
  if position ≥ tree.leaves.length then none
  else Witness.new position ((List.range depth).map fun level =>
    (tree.occupiedLevels level)[(position / 2 ^ level) ^^^ 1]?.getD (emptyLevels level))

end Tree

end Nymora.Accumulator
