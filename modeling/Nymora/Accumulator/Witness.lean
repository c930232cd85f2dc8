import Nymora.Lib.Merkle
import Nymora.Core.Digest
import Nymora.Crypto.Poseidon.Hash

namespace Nymora.Accumulator

open Nymora.Core
open Nymora.Crypto

-- A node in an accumulator: an interior hash, or a leaf value.
abbrev Node : Type := Digest .Node

namespace Node

-- The field element a node names: total, by reduction.
def value (node : Node) : F := Field.fromWitnessBytes node.asBytes

def zero : Node := .fromBytes (Bytes.zero DIGEST_LEN)

end Node

-- The 2-to-1 hash on field elements.
def hashPair (left right : F) : F := Poseidon.hash [left, right]

def hashNode (left right : Node) : Node :=
  .fromBytes (Field.toBytes (hashPair left.value right.value))

-- A leaf's position and the sibling hashes from the leaf upward.
@[ext] structure Witness (depth : Nat) where
  index : Nat
  siblings : List Node
  length_siblings : siblings.length = depth
  index_lt : index < 2 ^ 64
  index_lt_depth : depth < 64 → index < 2 ^ depth

namespace Witness

variable {depth : Nat}

instance : DecidableEq (Witness depth) := fun _ _ => decidable_of_iff' _ Witness.ext_iff

-- `none` if the index names no leaf at this depth.
def new (index : Nat) (siblings : List Node) : Option (Witness depth) :=
  if hvalid : siblings.length = depth ∧ index < 2 ^ 64 ∧ (depth < 64 → index < 2 ^ depth) then
    some ⟨index, siblings, hvalid.1, hvalid.2.1, hvalid.2.2⟩
  else none

-- The value of an empty subtree at each level.
def emptyNode (level : Nat) : Node := Merkle.emptyAt hashNode Node.zero level

-- Refills a path delivered without the levels above the occupied height.
def fromPrefix (index : Nat) (initial : List Node) : Option (Witness depth) :=
  if initial.length > depth then none
  else new index (initial ++
    (List.range (depth - initial.length)).map fun level => emptyNode (initial.length + level))

-- The turns of the fold: at each level the bit of the index and the sibling's value. A shift
-- of a 64-bit index takes its amount modulo 64.
def turns (witness : Witness depth) : List (Bool × F) :=
  witness.siblings.zipIdx.map fun (sibling, level) =>
    (witness.index.testBit (level % 64), sibling.value)

end Witness

def fold {depth : Nat} (leaf : F) (witness : Witness depth) : Root :=
  .fromBytes (Field.toBytes (Merkle.climb hashPair leaf witness.turns))

def rootFrom {depth : Nat} (value : Commitment) (witness : Witness depth) : Root :=
  fold (Field.fromWitnessBytes value.asBytes) witness

def verifies {depth : Nat} (value : Commitment) (witness : Witness depth) (root : Root) : Bool :=
  decide ((rootFrom value witness).asBytes = root.asBytes)

namespace Witness

variable {depth : Nat}

theorem new_eq_some {index : Nat} {siblings : List Node} {witness : Witness depth} :
    new index siblings = some witness ↔ witness.index = index ∧ witness.siblings = siblings := by
  unfold new
  split
  case isTrue hvalid =>
    rw [Option.some_inj]
    constructor
    · rintro rfl
      exact ⟨rfl, rfl⟩
    · rintro ⟨rfl, rfl⟩
      rfl
  case isFalse hinvalid =>
    simp only [reduceCtorEq, false_iff, not_and]
    rintro rfl rfl
    exact hinvalid ⟨witness.length_siblings, witness.index_lt, witness.index_lt_depth⟩

@[simp] theorem length_turns (witness : Witness depth) : witness.turns.length = depth := by
  simp [turns, witness.length_siblings]

end Witness

end Nymora.Accumulator
