import Nymora.Plonk.Statement
import Nymora.Lib.Merkle.Incremental
import Mathlib.Data.List.Iterate

namespace Nymora.Plonk

open Nymora.Crypto

-- A fixed-depth positional Merkle tree: the occupied prefix of each level, the leaves first,
-- and the root of an all-empty subtree of each height.
structure Tree (depth : Nat) where
  nodes : List (List F)
  zeros : List F
  length_nodes : nodes.length = depth + 1
  length_zeros : zeros.length = depth + 1

namespace Tree

variable {depth : Nat}

def new : Tree depth where
  nodes := List.replicate (depth + 1) []
  zeros := List.iterate (fun z => Poseidon.hash [z, z]) 0 (depth + 1)
  length_nodes := List.length_replicate
  length_zeros := List.length_iterate _ _ _

def len (tree : Tree depth) : Nat := (tree.nodes[0]?.getD []).length

-- The node at a level, occupied or implicitly empty.
def node (tree : Tree depth) (level index : Nat) : F :=
  (tree.nodes[level]?.getD [])[index]?.getD (tree.zeros[level]?.getD 0)

def modifyLevel (tree : Tree depth) (level : Nat) (update : List F → List F) : Tree depth where
  nodes := tree.nodes.modify level update
  zeros := tree.zeros
  length_nodes := by rw [List.length_modify, tree.length_nodes]
  length_zeros := tree.length_zeros

theorem getElem?_modifyLevel (tree : Tree depth) (level : Nat) (update : List F → List F)
    (other : Nat) : (tree.modifyLevel level update).nodes[other]? =
      if other = level then tree.nodes[other]?.map update else tree.nodes[other]? := by
  rw [modifyLevel, List.getElem?_modify]
  by_cases hlevel : other = level
  · simp [hlevel]
  · simp [hlevel, Ne.symm hlevel]

-- One level of an append's path: the parent of the running index, rehashed.
def rehash (state : Tree depth × Nat) (level : Nat) : Tree depth × Nat :=
  let (tree, index) := state
  let parent := index / 2
  let value := Poseidon.hash [tree.node level (parent * 2), tree.node level (parent * 2 + 1)]
  (tree.modifyLevel (level + 1) (Merkle.place · parent value), parent)

-- Appends a leaf: its position, or `none` when the tree is full, and the tree after.
def append (tree : Tree depth) (leaf : F) : Option Nat × Tree depth :=
  if depth < 64 ∧ tree.len ≥ 2 ^ depth then (none, tree)
  else
    let position := tree.len
    let pushed := tree.modifyLevel 0 (· ++ [leaf])
    (some position, ((List.range depth).foldl rehash (pushed, position)).1)

def root (tree : Tree depth) : F := tree.node depth 0

-- The authentication path for the leaf at a position.
def witness (tree : Tree depth) (position : Nat) : Option (Path depth) :=
  if position ≥ tree.len then none
  else some {
    siblings := (List.range depth).map fun level => tree.node level ((position / 2 ^ level) ^^^ 1)
    bits := (List.range depth).map fun level => decide ((position / 2 ^ level) &&& 1 = 1)
    length_siblings := by rw [List.length_map, List.length_range]
    length_bits := by rw [List.length_map, List.length_range] }

end Tree

end Nymora.Plonk
