import Nymora.Accumulator.Exclusion.Theorems

namespace Nymora.Accumulator

open Nymora.Core

-- The comparison and the collection's byte order are one order.
theorem ctLess_iff_compare (a b : Bytes 32) :
    ctLess a b = true ↔ compare (toOrdering a) (toOrdering b) = .lt := by
  rw [ctLess_iff, toOrdering, toOrdering, Bytes.compare_reverse, Nat.compare_eq_lt]

namespace ExclusionSet

variable {depth : Nat} (set : ExclusionSet depth)

-- A gap holds nothing only where a sentinel was inserted as a key.
theorem gap_ascends {gap : Bytes 32 × Bytes 32} (hgap : gap ∈ set.gaps) :
    ctLess gap.1 gap.2 = true ∨ (gap = (Bytes.zero 32, Bytes.zero 32) ∧ Bytes.zero 32 ∈ set.keys) ∨
      (gap = (upperSentinel, upperSentinel) ∧ upperSentinel ∈ set.keys) := by
  have hends : (Bytes.zero 32).toNatLe < upperSentinel.toNatLe := by decide +kernel
  rw [ctLess_iff]
  rcases Gaps.narrow Bytes.toNatLe set.keys_sorted set.zero_le_keys set.keys_le_upperSentinel hends
    hgap with hlt | ⟨hlow, hkey, hhigh⟩ | ⟨hkey, hlow, hhigh⟩
  · exact .inl hlt
  · have hzero : gap.2 = Bytes.zero 32 := Bytes.toNatLe_inj.1 hhigh
    rw [hzero] at hkey
    exact .inr (.inl ⟨Prod.ext hlow hzero, hkey⟩)
  · have htop : gap.1 = upperSentinel := Bytes.toNatLe_inj.1 hlow
    rw [htop] at hkey
    exact .inr (.inr ⟨Prod.ext htop hhigh, hkey⟩)

-- The gap that a key outside the set falls into, and no other.
theorem existsUnique_gap {key : Bytes 32} (habsent : truncateKey key ∉ set.keys)
    (hbottom : truncateKey key ≠ Bytes.zero 32) (htop : truncateKey key ≠ upperSentinel) :
    ∃! index : Nat, ∃ gap : Bytes 32 × Bytes 32, set.gaps[index]? = some gap ∧
      ctLess gap.1 (truncateKey key) = true ∧ ctLess (truncateKey key) gap.2 = true := by
  obtain ⟨gap, hgap, hinside⟩ := set.located key
  have hwithin := hinside.2 ⟨habsent, ?_, ?_⟩
  · refine ⟨_, ⟨gap, hgap, (ctLess_iff _ _).2 hwithin.1, (ctLess_iff _ _).2 hwithin.2⟩, ?_⟩
    rintro other ⟨later, hlater, hlow, hhigh⟩
    exact Gaps.index_unique Bytes.toNatLe set.bounds_sorted hlater hgap
      ⟨(ctLess_iff _ _).1 hlow, (ctLess_iff _ _).1 hhigh⟩ hwithin
  · intro heq
    exact hbottom (Bytes.toNatLe_inj.1 (heq.trans Bytes.toNatLe_zero.symm))
  · intro heq
    exact htop (Bytes.toNatLe_inj.1 (heq.trans toNatLe_upperSentinel.symm))

end ExclusionSet

-- One order governs the domain: the branch-free comparison, the integers and the collection's
-- byte order agree, and so the gaps of every set ascend from 0 to 2^253 - 1 without a hole, each
-- starting where the one before ends, and hold every other key exactly once.
theorem one_ordering_governs :
    (∀ a b : Bytes 32, ctLess a b = true ↔ a.toNatLe < b.toNatLe) ∧
    (∀ a b : Bytes 32, ctLess (truncateKey a) (truncateKey b) = true ↔
      compare (toOrdering (truncateKey a)) (toOrdering (truncateKey b)) = .lt) ∧
    ∀ {depth : Nat} (set : ExclusionSet depth),
      (set.gaps.Pairwise fun earlier later => earlier.2.toNatLe ≤ later.1.toNatLe) ∧
      (∀ gap ∈ set.gaps, ctLess gap.1 gap.2 = true ∨
        (gap = (Bytes.zero 32, Bytes.zero 32) ∧ Bytes.zero 32 ∈ set.keys) ∨
        (gap = (upperSentinel, upperSentinel) ∧ upperSentinel ∈ set.keys)) ∧
      (∀ index gap next, set.gaps[index]? = some gap → set.gaps[index + 1]? = some next →
        next.1 = gap.2) ∧
      (∀ value < 2 ^ 253, ∃ gap ∈ set.gaps, gap.1.toNatLe ≤ value ∧ value ≤ gap.2.toNatLe) ∧
      (∃ first ∈ set.gaps.head?, first.1.toNatLe = 0) ∧
      (∃ last ∈ set.gaps.getLast?, last.2.toNatLe = 2 ^ 253 - 1) ∧
      ∀ key, truncateKey key ∉ set.keys → truncateKey key ≠ Bytes.zero 32 →
        truncateKey key ≠ upperSentinel →
        ∃! index : Nat, ∃ gap : Bytes 32 × Bytes 32, set.gaps[index]? = some gap ∧
          ctLess gap.1 (truncateKey key) = true ∧ ctLess (truncateKey key) gap.2 = true := by
  refine ⟨ctLess_iff, fun a b => ctLess_iff_compare _ _, ?_⟩
  intro depth set
  refine ⟨Gaps.pairwise_gaps Bytes.toNatLe set.bounds_sorted, fun gap => set.gap_ascends,
    fun index gap next => Gaps.shared_bound, ?_, ?_, ?_, fun key => set.existsUnique_gap⟩
  · intro value hvalue
    refine Gaps.covered Bytes.toNatLe ?_ ?_
    · rw [Bytes.toNatLe_zero]
      exact Nat.zero_le _
    · rw [ExclusionSet.toNatLe_upperSentinel, KEY_BITS]
      omega
  · obtain ⟨high, hhead⟩ := Gaps.head?_gaps (Bytes.zero 32) upperSentinel set.keys
    exact ⟨_, hhead, Bytes.toNatLe_zero⟩
  · obtain ⟨low, hlast⟩ := Gaps.getLast?_gaps (Bytes.zero 32) upperSentinel set.keys
    exact ⟨_, hlast, ExclusionSet.toNatLe_upperSentinel⟩

-- With a sentinel among the keys, the key between them is still in one gap.
theorem one_ordering_governs_sentinel :
    ∃! index : Nat, ∃ gap : Bytes 32 × Bytes 32,
      (((ExclusionSet.new : ExclusionSet 2).insert (Bytes.zero 32)).insert
        (Bytes.replicate 32 7)).gaps[index]? = some gap ∧
      ctLess gap.1 (truncateKey (Bytes.replicate 32 2)) = true ∧
      ctLess (truncateKey (Bytes.replicate 32 2)) gap.2 = true := by
  obtain ⟨_, _, hsets⟩ := one_ordering_governs
  obtain ⟨_, _, _, _, _, _, hunique⟩ := hsets
    (((ExclusionSet.new : ExclusionSet 2).insert (Bytes.zero 32)).insert (Bytes.replicate 32 7))
  exact hunique (Bytes.replicate 32 2) (by decide +kernel) (by decide +kernel) (by decide +kernel)

end Nymora.Accumulator
