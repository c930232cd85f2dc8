import Nymora.Accumulator.Exclusion
import Nymora.Accumulator.Tree.Theorems

namespace Nymora.Accumulator

open Nymora.Core
open Nymora.Crypto

theorem toNatLe_truncateKey (key : Bytes 32) :
    (truncateKey key).toNatLe = key.toNatLe % 2 ^ KEY_BITS :=
  key.toNatLe_modify_top 5 (by decide)

theorem truncateKey_eq_self {key : Bytes 32} :
    truncateKey key = key ↔ key.toNatLe < 2 ^ KEY_BITS := by
  rw [← Bytes.toNatLe_inj, toNatLe_truncateKey]
  constructor
  · intro heq
    rw [← heq]
    exact Nat.mod_lt _ (by decide)
  · exact Nat.mod_eq_of_lt

theorem toNatLe_lt_fieldOrder {key : Bytes 32} (hdomain : truncateKey key = key) :
    key.toNatLe < fieldOrder :=
  Nat.lt_trans (truncateKey_eq_self.1 hdomain) (by decide)

-- In the ordering domain distinct byte strings name distinct field elements.
theorem fromWitnessBytes_inj_of_domain {left right : Bytes 32} (hleft : truncateKey left = left)
    (hright : truncateKey right = right)
    (hvalue : Field.fromWitnessBytes left = Field.fromWitnessBytes right) : left = right := by
  rw [← Field.fromWitnessBytes_of_lt (toNatLe_lt_fieldOrder hleft), hvalue,
    Field.fromWitnessBytes_of_lt (toNatLe_lt_fieldOrder hright)]

private theorem ctLess_loop (left right : List UInt8) (hlength : left.length = right.length) :
    (left.zip right).foldr (fun (x, y) (less, equal) =>
        (less || (equal && decide (x < y)), equal && decide (x = y))) (false, true) =
      (decide (LittleEndian.toNat left < LittleEndian.toNat right),
        decide (LittleEndian.toNat left = LittleEndian.toNat right)) := by
  induction left generalizing right with
  | nil => cases right with
    | nil => rfl
    | cons _ _ => simp at hlength
  | cons byte left ih => cases right with
    | nil => simp at hlength
    | cons other right =>
        have hbyte := byte.toNat_lt
        have hother := other.toNat_lt
        rw [List.zip_cons_cons, List.foldr_cons, ih right (by simpa using hlength)]
        refine Prod.ext ?_ ?_
        all_goals
          rw [Bool.eq_iff_iff]
          simp only [Bool.or_eq_true, Bool.and_eq_true, decide_eq_true_iff]
          simp only [LittleEndian.toNat_cons, UInt8.lt_iff_toNat_lt, ← UInt8.toNat_inj]
          omega

-- The constant-time comparison is the comparison of the numbers.
theorem ctLess_iff (a b : Bytes 32) : ctLess a b = true ↔ a.toNatLe < b.toNatLe := by
  rw [ctLess, ctLess_loop _ _ (by simp)]
  simp [Bytes.toNatLe]

namespace ExclusionSet

variable {depth : Nat}

theorem mem_keys {set : ExclusionSet depth} {key : Bytes 32} :
    key ∈ set.keys ↔ toOrdering key ∈ set.keySet := by
  simp only [keys, List.mem_map, Std.ExtTreeSet.mem_toList, toLe, toOrdering]
  constructor
  · rintro ⟨be, hbe, rfl⟩
    rwa [Bytes.reverse_reverse]
  · intro hmem
    exact ⟨key.reverse, hmem, Bytes.reverse_reverse key⟩

theorem truncateKey_of_mem_keys {set : ExclusionSet depth} {key : Bytes 32}
    (hkey : key ∈ set.keys) : truncateKey key = key := by
  have htruncated := set.truncated _ (mem_keys.1 hkey)
  rwa [toOrdering, Bytes.reverse_reverse] at htruncated

@[simp] theorem not_mem_keys_new (key : Bytes 32) : key ∉ (new : ExclusionSet depth).keys := by
  rw [mem_keys]
  exact Std.ExtTreeSet.not_mem_empty

theorem mem_keys_insert {set : ExclusionSet depth} {inserted key : Bytes 32} :
    key ∈ (set.insert inserted).keys ↔ key = truncateKey inserted ∨ key ∈ set.keys := by
  simp only [mem_keys, insert, Std.ExtTreeSet.mem_insert, Std.compare_eq_iff_eq, toOrdering]
  rw [← Bytes.toList_inj, ← Bytes.toList_inj]
  simp [eq_comm]

-- The keys ascend as numbers.
theorem keys_sorted (set : ExclusionSet depth) :
    set.keys.Pairwise fun low high => low.toNatLe < high.toNatLe := by
  rw [keys, List.pairwise_map]
  refine set.keySet.ordered_toList.imp ?_
  intro low high hlt
  have hcompare := Bytes.compare_reverse low.reverse high.reverse
  rw [Bytes.reverse_reverse, Bytes.reverse_reverse, hlt] at hcompare
  exact Nat.compare_eq_lt.1 hcompare.symm

theorem toNatLe_upperSentinel : upperSentinel.toNatLe = 2 ^ KEY_BITS - 1 := by decide +kernel

theorem truncateKey_of_mem_bounds {set : ExclusionSet depth} {bound : Bytes 32}
    (hbound : bound ∈ set.bounds) : truncateKey bound = bound := by
  simp only [bounds, List.mem_cons, List.mem_append, List.not_mem_nil, or_false] at hbound
  rcases hbound with rfl | hkey | rfl
  · decide +kernel
  · exact truncateKey_of_mem_keys hkey
  · decide +kernel

theorem bounds_sorted (set : ExclusionSet depth) :
    set.bounds.Pairwise fun low high => low.toNatLe ≤ high.toNatLe := by
  rw [bounds, List.pairwise_cons]
  refine ⟨fun high _ => by simp, List.pairwise_append.2 ⟨?_, List.pairwise_singleton _ _, ?_⟩⟩
  · exact set.keys_sorted.imp Nat.le_of_lt
  · intro key hkey sentinel hsentinel
    have hlt := truncateKey_eq_self.1 (truncateKey_of_mem_keys hkey)
    rw [List.mem_singleton.1 hsentinel, toNatLe_upperSentinel]
    omega

theorem zero_le_keys (set : ExclusionSet depth) :
    ∀ key ∈ set.keys, (Bytes.zero 32).toNatLe ≤ key.toNatLe := by
  intro key _
  rw [Bytes.toNatLe_zero]
  exact Nat.zero_le _

theorem keys_le_upperSentinel (set : ExclusionSet depth) :
    ∀ key ∈ set.keys, key.toNatLe ≤ upperSentinel.toNatLe := by
  intro key hkey
  have hlt := truncateKey_eq_self.1 (truncateKey_of_mem_keys hkey)
  rw [toNatLe_upperSentinel]
  omega

-- The keys at or below a key count off the gap it falls into, which holds it strictly inside
-- unless it is in the set or a sentinel.
theorem located (set : ExclusionSet depth) (key : Bytes 32) :
    ∃ gap, set.gaps[set.keys.countP fun other =>
        decide (other.toNatLe ≤ (truncateKey key).toNatLe)]? = some gap ∧
      (gap.1.toNatLe < (truncateKey key).toNatLe ∧ (truncateKey key).toNatLe < gap.2.toNatLe ↔
        truncateKey key ∉ set.keys ∧ (truncateKey key).toNatLe ≠ 0 ∧
          (truncateKey key).toNatLe ≠ 2 ^ KEY_BITS - 1) := by
  have hdomain := truncateKey_eq_self.1 (truncateKey_truncateKey key)
  obtain ⟨gap, hgap, hinside⟩ := Gaps.located Bytes.toNatLe (truncateKey key).toNatLe
    set.keys_sorted set.zero_le_keys set.keys_le_upperSentinel
    (by rw [Bytes.toNatLe_zero]; exact Nat.zero_le _)
    (by rw [toNatLe_upperSentinel]; omega)
  have hkeys : (∀ other ∈ set.keys, other.toNatLe ≠ (truncateKey key).toNatLe) ↔
      truncateKey key ∉ set.keys := by
    constructor
    · exact fun hother hmem => hother _ hmem rfl
    · intro hmem other hother heq
      rw [Bytes.toNatLe_inj.1 heq] at hother
      exact hmem hother
  refine ⟨gap, hgap, ?_⟩
  rw [hinside, hkeys, Bytes.toNatLe_zero, toNatLe_upperSentinel]

-- Whatever the tree had room for, its leaves are gap leaves of the set.
theorem mem_leaves_foldl {leaf : Commitment} {gaps : List (Bytes 32 × Bytes 32)}
    {tree : Tree depth}
    (hleaf : leaf ∈ (gaps.foldl (fun tree gap =>
      match tree.append (.fromBytes (Field.toBytes (gapLeaf gap.1 gap.2))) with
      | some (_, appended) => appended
      | none => tree) tree).leaves) :
    leaf ∈ tree.leaves ∨
      ∃ gap ∈ gaps, leaf = .fromBytes (Field.toBytes (gapLeaf gap.1 gap.2)) := by
  induction gaps generalizing tree with
  | nil => exact Or.inl hleaf
  | cons gap gaps ih =>
      rcases ih hleaf with hin | ⟨later, hlater, heq⟩
      · dsimp only at hin
        split at hin
        · next position appended happend =>
            rw [(Tree.append_eq_some.1 happend).2.2, List.mem_append, List.mem_singleton] at hin
            exact hin.imp_right fun heq => ⟨gap, List.mem_cons_self, heq⟩
        · exact Or.inl hin
      · exact Or.inr ⟨later, List.mem_cons_of_mem _ hlater, heq⟩

theorem mem_leaves_tree {set : ExclusionSet depth} {leaf : Commitment}
    (hleaf : leaf ∈ set.tree.leaves) :
    ∃ gap ∈ set.gaps, leaf = .fromBytes (Field.toBytes (gapLeaf gap.1 gap.2)) := by
  rcases mem_leaves_foldl hleaf with hnew | hgap
  · cases hnew
  · exact hgap

theorem root_eq (set : ExclusionSet depth) :
    set.root = .fromBytes (Field.toBytes (Merkle.nodeAt hashPair 0 set.tree.values depth 0)) := by
  refine Tree.root_eq_toBytes set.tree fun _ leaf hleaf => ?_
  obtain ⟨gap, _, rfl⟩ := mem_leaves_tree hleaf
  rw [Field.fromWitnessBytes_toBytes]

-- The inputs of one gap leaf.
def gapInput (low high : Bytes 32) : List F :=
  [Field.ofNat FieldDomain.GAP, Field.fromWitnessBytes low, Field.fromWitnessBytes high]

-- Everything the operator hashes to publish the root.
def rootQueries (set : ExclusionSet depth) : List (List F) :=
  (set.gaps.map fun gap => gapInput gap.1 gap.2) ++ set.tree.rootQueries

end ExclusionSet

-- Everything a verifier hashes to check one witness.
def AbsenceWitness.queries {depth : Nat} (witness : AbsenceWitness depth) : List (List F) :=
  ExclusionSet.gapInput witness.low witness.high ::
    witness.witness.foldQueries (gapLeaf witness.low witness.high)

namespace ExclusionSet

variable {depth : Nat}

-- A witness that verifies names a gap of the set that strictly contains the key.
theorem gap_of_verifiesAbsent {set : ExclusionSet depth} {key : Bytes 32}
    {witness : AbsenceWitness depth}
    (hfree : Poseidon.CollisionFree (set.rootQueries ++ witness.queries))
    (hverifies : verifiesAbsent key witness set.root = true) :
    (witness.low, witness.high) ∈ set.gaps ∧
      witness.low.toNatLe < (truncateKey key).toNatLe ∧
      (truncateKey key).toNatLe < witness.high.toNatLe := by
  unfold verifiesAbsent at hverifies
  split at hverifies
  · cases hverifies
  next hdomain =>
    obtain ⟨hlow, hhigh⟩ : truncateKey witness.low = witness.low ∧
        truncateKey witness.high = witness.high := by simpa [not_or] using hdomain
    simp only [Bool.and_eq_true, decide_eq_true_eq, ctLess_iff] at hverifies
    obtain ⟨⟨hbelow, habove⟩, hroot⟩ := hverifies
    refine ⟨?_, hbelow, habove⟩
    have hclimb : Merkle.climb hashPair (gapLeaf witness.low witness.high) witness.witness.turns =
        Merkle.nodeAt hashPair 0 set.tree.values depth 0 := by
      rw [root_eq] at hroot
      exact Field.toBytes_inj.1 hroot
    have hslot := fold_binds (hfree.mono (List.append_subset.2
      ⟨fun _ htree => List.mem_append_left _ (List.mem_append_right _ htree),
        fun _ hfold => List.mem_append_right _ (List.mem_cons_of_mem _ hfold)⟩)) hclimb
    have hinput : gapInput witness.low witness.high ∈ set.rootQueries ++ witness.queries :=
      List.mem_append_right _ List.mem_cons_self
    cases hvalue : set.tree.values[Merkle.pathIndex witness.witness.turns]? with
    | none =>
        -- An empty slot holds zero, which no gap leaf is.
        rw [hvalue, Option.getD_none] at hslot
        exact absurd hslot (hfree.ne_zero _ hinput)
    | some value =>
        rw [hvalue, Option.getD_some] at hslot
        obtain ⟨leaf, hleaf, rfl⟩ := List.mem_map.1 (List.mem_of_getElem? hvalue)
        obtain ⟨gap, hgap, rfl⟩ := mem_leaves_tree hleaf
        rw [Field.fromWitnessBytes_toBytes] at hslot
        have hinputs := hfree.inj _ hinput _ (List.mem_append_left _
          (List.mem_append_left _ (List.mem_map.2 ⟨gap, hgap, rfl⟩))) rfl hslot
        simp only [gapInput, List.cons.injEq, and_true, true_and] at hinputs
        have hbounds := Gaps.mem_of_mem_gaps hgap
        have heqlow := fromWitnessBytes_inj_of_domain hlow
          (truncateKey_of_mem_bounds hbounds.1) hinputs.1
        have heqhigh := fromWitnessBytes_inj_of_domain hhigh
          (truncateKey_of_mem_bounds hbounds.2) hinputs.2
        rwa [heqlow, heqhigh]

-- No witness of any bytes proves a present key absent.
theorem not_verifiesAbsent_of_mem {set : ExclusionSet depth} {key : Bytes 32}
    (hmem : truncateKey key ∈ set.keys) (witness : AbsenceWitness depth)
    (hfree : Poseidon.CollisionFree (set.rootQueries ++ witness.queries)) :
    verifiesAbsent key witness set.root = false := by
  rw [← Bool.not_eq_true]
  intro hverifies
  obtain ⟨hgap, hbetween⟩ := gap_of_verifiesAbsent hfree hverifies
  exact Gaps.not_mem_gap Bytes.toNatLe set.bounds_sorted hgap
    (List.mem_cons_of_mem _ (List.mem_append_left _ hmem)) hbetween

theorem mem_keys_foldl_insert {inserted : List (Bytes 32)} {set : ExclusionSet depth}
    {key : Bytes 32} : key ∈ (inserted.foldl insert set).keys ↔
      (∃ other ∈ inserted, key = truncateKey other) ∨ key ∈ set.keys := by
  induction inserted generalizing set with
  | nil => simp
  | cons first inserted ih =>
      rw [List.foldl_cons, ih, mem_keys_insert]
      simp only [List.mem_cons, exists_eq_or_imp]
      grind

-- Exclusion soundness, over every insertion sequence: also past the gap tree's capacity, and
-- against bounds, siblings and an index of the adversary's choice.
theorem inserted_never_absent (inserted : List (Bytes 32)) (key : Bytes 32)
    (hinserted : ∃ other ∈ inserted, truncateKey key = truncateKey other)
    (witness : AbsenceWitness depth)
    (hfree : Poseidon.CollisionFree
      ((inserted.foldl insert (new : ExclusionSet depth)).rootQueries ++ witness.queries)) :
    verifiesAbsent key witness (inserted.foldl insert (new : ExclusionSet depth)).root = false :=
  not_verifiesAbsent_of_mem (mem_keys_foldl_insert.2 (Or.inl hinserted)) witness hfree

-- Three keys leave four gaps for the two slots of a depth-1 tree; the forged gap spans the key.
theorem inserted_never_absent_over_capacity :
    verifiesAbsent (Bytes.replicate 32 2)
      (⟨Bytes.replicate 32 1, Bytes.replicate 32 3,
        ⟨1, [.fromBytes (Bytes.replicate 32 9)], rfl, by decide, fun _ => by decide⟩⟩ :
          AbsenceWitness 1)
      ([Bytes.replicate 32 1, Bytes.replicate 32 2, Bytes.replicate 32 3].foldl insert
        (new : ExclusionSet 1)).root = false :=
  inserted_never_absent _ _ ⟨Bytes.replicate 32 2, by decide, rfl⟩ _ (by decide +kernel)

end ExclusionSet

end Nymora.Accumulator
