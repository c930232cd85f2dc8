import Nymora.Lib.Gaps
import Nymora.Accumulator.Tree
import Nymora.Core.Domain

namespace Nymora.Accumulator

open Nymora.Core
open Nymora.Crypto

def KEY_BITS : Nat := 253

-- Truncates a key into the ordering domain: bits 253 and above cleared.
def truncateKey (key : Bytes 32) : Bytes 32 := key.modify 31 (· &&& 0x1f)

-- The largest value of the ordering domain.
def upperSentinel : Bytes 32 := (Bytes.replicate 32 0xff).modify 31 fun _ => 0x1f

-- Strict less-than of two little-endian values. The loop runs from the most significant byte
-- down and carries whether the bytes so far decided the answer and whether they agreed.
def ctLess (a b : Bytes 32) : Bool :=
  ((a.toList.zip b.toList).foldr (fun (x, y) (less, equal) =>
    (less || (equal && decide (x < y)), equal && decide (x = y))) (false, true)).1

def gapLeaf (low high : Bytes 32) : F :=
  Poseidon.hash
    [Field.ofNat FieldDomain.GAP, Field.fromWitnessBytes low, Field.fromWitnessBytes high]

-- A claimed gap and the inclusion path of its leaf. Construction validates nothing.
structure AbsenceWitness (depth : Nat) where
  low : Bytes 32
  high : Bytes 32
  witness : Witness depth
deriving DecidableEq

def verifiesAbsent {depth : Nat} (key : Bytes 32) (witness : AbsenceWitness depth)
    (root : Root) : Bool :=
  -- The bounds must lie in the ordering domain.
  if truncateKey witness.low ≠ witness.low ∨ truncateKey witness.high ≠ witness.high then false
  else
    let t := truncateKey key
    let contained := ctLess witness.low t && ctLess t witness.high
    let recomputed := fold (gapLeaf witness.low witness.high) witness.witness
    contained && decide (recomputed.asBytes = root.asBytes)

-- A keyed exclusion set. Keys are truncated and kept big-endian, so that the byte order of
-- the collection is the integer order of the domain.
structure ExclusionSet (depth : Nat) where
  keySet : Std.ExtTreeSet (Bytes 32)
  truncated : ∀ key ∈ keySet, truncateKey key.reverse = key.reverse

def toOrdering (le : Bytes 32) : Bytes 32 := le.reverse

def toLe (be : Bytes 32) : Bytes 32 := be.reverse

theorem truncateKey_truncateKey (key : Bytes 32) :
    truncateKey (truncateKey key) = truncateKey key := by
  apply Bytes.ext
  simp only [truncateKey, Bytes.toList_modify, List.modify_modify_eq]
  congr 1
  funext byte
  exact UInt8.and_assoc byte 0x1f 0x1f

namespace ExclusionSet

variable {depth : Nat}

def new : ExclusionSet depth := ⟨∅, fun _ hkey => absurd hkey Std.ExtTreeSet.not_mem_empty⟩

def insert (set : ExclusionSet depth) (key : Bytes 32) : ExclusionSet depth where
  keySet := set.keySet.insert (toOrdering (truncateKey key))
  truncated := by
    intro other hother
    rcases Std.ExtTreeSet.mem_insert.1 hother with heq | hmem
    · have hkey : toOrdering (truncateKey key) = other := Std.LawfulEqCmp.eq_of_compare heq
      rw [← hkey, toOrdering, Bytes.reverse_reverse, truncateKey_truncateKey]
    · exact set.truncated other hmem

-- Every truncated key, ascending.
def keys (set : ExclusionSet depth) : List (Bytes 32) := set.keySet.toList.map toLe

-- The gap bounds: sentinels closing both ends, consecutive keys between.
def bounds (set : ExclusionSet depth) : List (Bytes 32) :=
  Bytes.zero 32 :: (set.keys ++ [upperSentinel])

def gaps (set : ExclusionSet depth) : List (Bytes 32 × Bytes 32) := Gaps.gaps set.bounds

-- The gap tree. A gap the tree has no room for is dropped.
def tree (set : ExclusionSet depth) : Tree depth :=
  set.gaps.foldl (fun tree gap =>
    match tree.append (.fromBytes (Field.toBytes (gapLeaf gap.1 gap.2))) with
    | some (_, appended) => appended
    | none => tree) Tree.new

def root (set : ExclusionSet depth) : Root := set.tree.root

-- The absence witness for a key: the gap whose lower bound is the greatest bound at or below
-- the truncated key. `none` is the panic of an index past the gaps or the tree.
def absenceWitness (set : ExclusionSet depth) (key : Bytes 32) : Option (AbsenceWitness depth) := do
  let t := toOrdering (truncateKey key)
  let position := set.keySet.toList.countP fun other => (compare other t).isLE
  let (low, high) ← set.gaps[position]?
  let witness ← set.tree.witness position
  return ⟨low, high, witness⟩

end ExclusionSet

end Nymora.Accumulator
