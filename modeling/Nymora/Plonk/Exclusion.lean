import Nymora.Lib.Gaps
import Nymora.Plonk.Evaluate
import Nymora.Plonk.Tree

namespace Nymora.Plonk

open Nymora.Core
open Nymora.Crypto

-- The greatest value of the ordering domain, set bit by bit.
def upperSentinel : F :=
  let le := (List.range KEY_BITS).foldl (fun le bit =>
    le.modify (bit / 8) (· ||| (1 <<< UInt8.ofNat (bit % 8)))) (Bytes.zero 32)
  ⟨le.toNatLe, by decide +kernel⟩

-- The search of a sorted sequence: where a match is, or else where one would be inserted.
def binarySearchBy {α : Type} (keys : List α) (probe : α → Ordering) : Except Nat Nat :=
  match keys.findIdx? fun key => decide (probe key = .eq) with
  | some index => .ok index
  | none => .error (keys.countP fun key => decide (probe key = .lt))

theorem binarySearchBy_eq_error {α : Type} {keys : List α} {probe : α → Ordering} {position : Nat}
    (hsearch : binarySearchBy keys probe = .error position) :
    (∀ key ∈ keys, probe key ≠ .eq) ∧
      position = keys.countP fun key => decide (probe key = .lt) := by
  unfold binarySearchBy at hsearch
  cases hfound : keys.findIdx? fun key => decide (probe key = .eq) with
  | some index =>
      rw [hfound] at hsearch
      cases hsearch
  | none =>
      rw [hfound] at hsearch
      refine ⟨fun key hkey => ?_, (Except.error.inj hsearch).symm⟩
      exact of_decide_eq_false (List.findIdx?_eq_none_iff.1 hfound key hkey)

theorem pairwise_insertIdx {keys : List F} {t : F}
    (hsorted : keys.Pairwise fun low high => leCmp low high = .lt)
    (hnew : ∀ key ∈ keys, leCmp key t ≠ .eq) :
    (keys.insertIdx (keys.countP fun key => decide (leCmp key t = .lt)) t).Pairwise
      fun low high => leCmp low high = .lt := by
  have hcount : (keys.countP fun key => decide (leCmp key t = .lt)) =
      keys.countP fun key => decide (key.val < t.val) := by
    apply List.countP_congr
    intro key _
    rw [decide_eq_true_iff, decide_eq_true_iff, leCmp_eq_lt]
  have hranks : ∀ key ∈ keys, key.val ≠ t.val := by
    intro key hkey heq
    exact hnew key hkey (by rw [leCmp_eq, heq]; exact Nat.compare_eq_eq.2 rfl)
  have hascend : keys.Pairwise fun low high => low.val < high.val :=
    hsorted.imp leCmp_eq_lt.1
  rw [hcount]
  exact (Gaps.pairwise_insertIdx Fin.val hascend hranks).imp leCmp_eq_lt.2

-- A keyed exclusion set: the present keys, truncated into the ordering domain, kept sorted.
structure GapSet where
  keys : List F
  sorted : keys.Pairwise fun low high => leCmp low high = .lt
  truncated : ∀ key ∈ keys, truncateKey key = key

namespace GapSet

def new : GapSet := ⟨[], List.Pairwise.nil, fun _ hkey => absurd hkey List.not_mem_nil⟩

-- Inserts a key where the search says, unless it is there.
def insert (set : GapSet) (key : F) : GapSet :=
  let t := truncateKey key
  match hsearch : binarySearchBy set.keys (leCmp · t) with
  | .ok _ => set
  | .error position => {
      keys := set.keys.insertIdx position t
      sorted := by
        obtain ⟨hnew, rfl⟩ := binarySearchBy_eq_error hsearch
        exact pairwise_insertIdx set.sorted hnew
      truncated := by
        intro other hother
        rcases List.eq_or_mem_of_mem_insertIdx hother with rfl | hother
        · apply Fin.ext
          rw [truncateKey_val, truncateKey_val, Nat.mod_mod]
        · exact set.truncated other hother }

-- The gap bounds, sentinels included.
def bounds (set : GapSet) : List F := 0 :: (set.keys ++ [upperSentinel])

def gaps (set : GapSet) : List (F × F) := Gaps.gaps set.bounds

-- The gap tree, rebuilt from the current keys; `none` is the panic of a tree without room.
def tree (depth : Nat) (set : GapSet) : Option (Tree depth) :=
  set.gaps.foldlM (fun tree gap =>
    match tree.append (gapLeaf gap.1 gap.2) with
    | (some _, appended) => some appended
    | (none, _) => none) Tree.new

def root (depth : Nat) (set : GapSet) : Option F := do
  let tree ← set.tree depth
  return tree.root

-- The first gap that starts at or below a value and ends above it.
def gapAt (set : GapSet) (t : F) : Option Nat :=
  set.gaps.findIdx? fun (low, high) =>
    decide (leCmp low t ≠ .gt) && decide (leCmp t high = .lt)

-- The absence witness for a key: the gap that should contain it, or the first of all where
-- none does. `none` is a panic.
def absenceWitness (depth : Nat) (set : GapSet) (key : F) : Option (AbsenceWitness depth) := do
  let t := truncateKey key
  let position := (set.gapAt t).getD 0
  let (low, high) ← set.gaps[position]?
  let tree ← set.tree depth
  let path ← tree.witness position
  return ⟨low, high, path⟩

end GapSet

end Nymora.Plonk
