import Nymora.Plonk.Exclusion
import Nymora.Plonk.Tree.Theorems
import Nymora.Accumulator.Exclusion.Completeness

namespace Nymora.Plonk

open Nymora.Core
open Nymora.Crypto
open Nymora.Accumulator (ExclusionSet)

theorem upperSentinel_val : upperSentinel.val = 2 ^ 253 - 1 := by decide +kernel

theorem toBytes_upperSentinel : Field.toBytes upperSentinel = Accumulator.upperSentinel := by
  decide +kernel

theorem toBytes_zero : Field.toBytes 0 = Bytes.zero 32 := by decide +kernel

theorem toBytes_truncateKey (key : F) :
    Field.toBytes (truncateKey key) = Accumulator.truncateKey (Field.toBytes key) := by
  rw [← Bytes.toNatLe_inj, Field.toNatLe_toBytes, truncateKey_val, Accumulator.toNatLe_truncateKey,
    Field.toNatLe_toBytes]
  rfl

theorem gapLeaf_toBytes (low high : F) :
    Accumulator.gapLeaf (Field.toBytes low) (Field.toBytes high) = gapLeaf low high := by
  rw [Accumulator.gapLeaf, gapLeaf, Field.fromWitnessBytes_toBytes, Field.fromWitnessBytes_toBytes]

namespace GapSet

variable {depth : Nat}

theorem mem_keys_insert {set : GapSet} {inserted key : F} :
    key ∈ (set.insert inserted).keys ↔ key = truncateKey inserted ∨ key ∈ set.keys := by
  unfold insert
  dsimp only
  split
  next index hfound =>
    -- A found key is there already.
    refine ⟨Or.inr, ?_⟩
    rintro (rfl | hkey)
    · unfold binarySearchBy at hfound
      cases hmatch : set.keys.findIdx? fun other =>
          decide (leCmp other (truncateKey inserted) = .eq) with
      | none =>
          rw [hmatch] at hfound
          cases hfound
      | some position =>
          obtain ⟨hposition, heq, _⟩ := List.findIdx?_eq_some_iff_getElem.1 hmatch
          rw [decide_eq_true_iff, leCmp_eq, Nat.compare_eq_eq] at heq
          rw [← Fin.ext heq]
          exact List.getElem_mem hposition
    · exact hkey
  next position herror =>
    have hposition := (binarySearchBy_eq_error herror).2
    rw [List.mem_insertIdx]
    rw [hposition]
    exact List.countP_le_length

theorem keys_ascend (set : GapSet) : set.keys.Pairwise fun low high => low.val < high.val :=
  set.sorted.imp leCmp_eq_lt.1

theorem val_lt_of_mem_keys {set : GapSet} {key : F} (hkey : key ∈ set.keys) :
    key.val < 2 ^ 253 := by
  rw [← set.truncated key hkey, truncateKey_val]
  exact Nat.mod_lt _ (by decide)

-- The two sets hold the same keys in the same order.
def Mirrors (native : GapSet) (set : ExclusionSet depth) : Prop :=
  set.keys = native.keys.map Field.toBytes

theorem mirrors_iff {native : GapSet} {set : ExclusionSet depth} :
    Mirrors native set ↔ ∀ key, key ∈ set.keys ↔ ∃ other ∈ native.keys, Field.toBytes other = key := by
  constructor
  · intro hmirrors key
    rw [hmirrors, List.mem_map]
  · intro hsame
    have hascend : (native.keys.map Field.toBytes).Pairwise
        fun low high => low.toNatLe < high.toNatLe := by
      rw [List.pairwise_map]
      refine native.keys_ascend.imp fun hlt => ?_
      rwa [Field.toNatLe_toBytes, Field.toNatLe_toBytes]
    have hdistinct : ∀ keys : List (Bytes 32),
        keys.Pairwise (fun low high => low.toNatLe < high.toNatLe) → keys.Nodup := by
      intro keys hkeys
      refine hkeys.imp ?_
      rintro low high hlt rfl
      exact Nat.lt_irrefl _ hlt
    refine List.Perm.eq_of_pairwise (fun low high _ _ hlow hhigh =>
      absurd hhigh (Nat.lt_asymm hlow)) set.keys_sorted hascend ?_
    refine (List.perm_ext_iff_of_nodup (hdistinct _ set.keys_sorted) (hdistinct _ hascend)).2 ?_
    intro key
    rw [hsame, List.mem_map]

theorem Mirrors.insert {native : GapSet} {set : ExclusionSet depth} (hmirrors : Mirrors native set)
    (key : F) : Mirrors (native.insert key) (set.insert (Field.toBytes key)) := by
  rw [mirrors_iff] at hmirrors ⊢
  intro other
  rw [ExclusionSet.mem_keys_insert, hmirrors, ← toBytes_truncateKey]
  simp only [mem_keys_insert, or_and_right, exists_or, exists_eq_left]
  rw [eq_comm]

theorem mirrors_foldl_insert (depth : Nat) (keys : List F) :
    Mirrors (keys.foldl insert new)
      ((keys.map Field.toBytes).foldl ExclusionSet.insert (ExclusionSet.new : ExclusionSet depth)) := by
  have hrun : ∀ (native : GapSet) (set : ExclusionSet depth), Mirrors native set →
      Mirrors (keys.foldl insert native)
        ((keys.map Field.toBytes).foldl ExclusionSet.insert set) := by
    induction keys with
    | nil => exact fun _ _ hmirrors => hmirrors
    | cons key keys ih => exact fun _ _ hmirrors => ih _ _ (hmirrors.insert key)
  refine hrun new ExclusionSet.new (mirrors_iff.2 fun key => ?_)
  constructor
  · intro hkey
    exact absurd hkey (ExclusionSet.not_mem_keys_new key)
  · rintro ⟨other, hother, _⟩
    cases hother

theorem length_gaps (set : GapSet) : set.gaps.length = set.keys.length + 1 := by
  simp [gaps, bounds]

theorem Mirrors.gaps {native : GapSet} {set : ExclusionSet depth} (hmirrors : Mirrors native set) :
    set.gaps = native.gaps.map (Prod.map Field.toBytes Field.toBytes) := by
  rw [GapSet.gaps, ← Gaps.gaps_map, ExclusionSet.gaps, ExclusionSet.bounds, bounds, hmirrors,
    List.map_cons, List.map_append, List.map_singleton, toBytes_zero, toBytes_upperSentinel]

-- Gaps the tree has room for build a tree over their leaves.
theorem holds_foldlM (gaps : List (F × F)) {tree : Tree depth} {leaves : List F}
    (hholds : tree.Holds leaves) (hfits : leaves.length + gaps.length ≤ 2 ^ depth) :
    ∃ built, gaps.foldlM (fun tree gap =>
        match tree.append (gapLeaf gap.1 gap.2) with
        | (some _, appended) => some appended
        | (none, _) => none) tree = some built ∧
      built.Holds (leaves ++ gaps.map fun gap => gapLeaf gap.1 gap.2) := by
  induction gaps generalizing tree leaves with
  | nil => exact ⟨tree, rfl, by simpa using hholds⟩
  | cons gap gaps ih =>
      rw [List.length_cons] at hfits
      obtain ⟨hposition, happended⟩ := hholds.append (gapLeaf gap.1 gap.2) (by omega)
      obtain ⟨built, hbuilt, hlater⟩ := ih happended (by simp; omega)
      refine ⟨built, ?_, by simpa using hlater⟩
      rw [List.foldlM_cons]
      cases happend : tree.append (gapLeaf gap.1 gap.2) with
      | mk taken appended =>
          rw [happend] at hposition hbuilt
          subst hposition
          exact hbuilt

theorem tree_eq_some {set : GapSet} (hroom : set.keys.length + 1 ≤ 2 ^ depth) :
    ∃ tree, set.tree depth = some tree ∧
      tree.Holds (set.gaps.map fun gap => gapLeaf gap.1 gap.2) := by
  have hnew : (Tree.new : Tree depth).Holds [] := Tree.holds_new
  obtain ⟨built, hbuilt, hholds⟩ := holds_foldlM set.gaps hnew
    (by rw [length_gaps]; simpa using hroom)
  exact ⟨built, hbuilt, hholds⟩

theorem Mirrors.tree {native : GapSet} {set : ExclusionSet depth} (hmirrors : Mirrors native set)
    (hroom : native.keys.length + 1 ≤ 2 ^ depth) :
    ∃ tree, native.tree depth = some tree ∧ Tree.Mirrors tree set.tree := by
  obtain ⟨tree, htree, hholds⟩ := tree_eq_some hroom
  refine ⟨tree, htree, _, hholds, ?_⟩
  have hlength : set.keys.length = native.keys.length := by rw [hmirrors, List.length_map]
  rw [ExclusionSet.leaves_tree (by rw [hlength]; exact hroom), hmirrors.gaps, List.map_map,
    List.map_map]
  apply List.map_congr_left
  intro gap _
  exact congrArg (fun leaf => Digest.fromBytes (Field.toBytes leaf)) (gapLeaf_toBytes gap.1 gap.2)

-- Below the upper sentinel the search finds the gap after the keys at or below its target.
theorem gapAt_of_lt (native : GapSet) {t : F} (ht : t.val < 2 ^ 253 - 1) :
    native.gapAt t = some (native.keys.countP fun key => decide (key.val ≤ t.val)) := by
  have hlocated : (Gaps.gaps (0 :: (native.keys ++ [upperSentinel]))).findIdx? (fun gap =>
      decide (gap.1.val ≤ t.val) && decide (t.val < gap.2.val)) =
        some (native.keys.countP fun key => decide (key.val ≤ t.val)) :=
    Gaps.findIdx?_gaps Fin.val native.keys_ascend (Nat.zero_le _)
      (by rw [upperSentinel_val]; exact ht)
  rw [← hlocated, gapAt, gaps, bounds]
  congr 1
  funext ⟨low, high⟩
  simp only [leCmp_eq, ne_eq, Nat.compare_eq_gt, Nat.not_lt, Nat.compare_eq_lt]

theorem gapAt_lt_length (native : GapSet) (t : F) :
    (native.gapAt t).getD 0 < native.gaps.length := by
  cases hfound : native.gapAt t with
  | none =>
      rw [Option.getD_none, length_gaps]
      exact Nat.succ_pos _
  | some position =>
      rw [gapAt, List.findIdx?_eq_some_iff_getElem] at hfound
      exact hfound.1

-- No gap ends above the upper sentinel.
theorem high_le_of_mem_gaps {native : GapSet} {gap : F × F} (hgap : gap ∈ native.gaps) :
    gap.2.val ≤ 2 ^ 253 - 1 := by
  have hbound := (Gaps.mem_of_mem_gaps hgap).2
  simp only [bounds, List.mem_cons, List.mem_append, List.not_mem_nil, or_false] at hbound
  rcases hbound with hzero | hkey | hsentinel
  · rw [hzero]
    exact Nat.zero_le _
  · have hlt := val_lt_of_mem_keys hkey
    omega
  · rw [hsentinel, upperSentinel_val]

-- The native witness exists for every key.
theorem absenceWitness_eq_some {native : GapSet} {tree : Tree depth} {leaves : List F} (key : F)
    (htree : native.tree depth = some tree) (hholds : tree.Holds leaves)
    (hlength : leaves.length = native.gaps.length) :
    ∃ gap path, native.gaps[(native.gapAt (truncateKey key)).getD 0]? = some gap ∧
      tree.witness ((native.gapAt (truncateKey key)).getD 0) = some path ∧
      native.absenceWitness depth key = some ⟨gap.1, gap.2, path⟩ := by
  have hposition := gapAt_lt_length native (truncateKey key)
  have hgap := List.getElem?_eq_getElem hposition
  rw [← hlength] at hposition
  obtain ⟨path, hpath, _⟩ := hholds.witness hposition
  refine ⟨_, path, hgap, hpath, ?_⟩
  unfold absenceWitness
  simp only [hgap, htree, hpath, Option.bind_eq_bind, Option.bind_some, Option.pure_def]

-- The two witnesses for one key: both exist, they verify alike, and where they verify they
-- are one witness.
structure Agree (native : AbsenceWitness depth) (witness : Accumulator.AbsenceWitness depth)
    (key root : F) (published : Root) : Prop where
  verifies : verifiesAbsent key native root =
    Accumulator.verifiesAbsent (Field.toBytes key) witness published
  matched : verifiesAbsent key native root = true → witness.low = Field.toBytes native.low ∧
    witness.high = Field.toBytes native.high ∧ native.path.Matches witness.witness

theorem decode_toBytes (value : F) : decode (Field.toBytes value) = some value := by
  rw [decode, Field.decode_eq_some, Field.toNatLe_toBytes, Field.fromWitnessBytes_toBytes]
  exact ⟨value.isLt, rfl⟩

-- Both sides hand out the witness of one gap.
theorem agree_of_gap {native : AbsenceWitness depth} {witness : Accumulator.AbsenceWitness depth}
    {key root : F} {published : Root} (hroot : Field.toBytes root = published.asBytes)
    (hlow : witness.low = Field.toBytes native.low)
    (hhigh : witness.high = Field.toBytes native.high)
    (hpath : native.path.Matches witness.witness) (hrange : native.high.val < 2 ^ 253) :
    Agree native witness key root published where
  verifies := by
    have hdecoded : decode published.asBytes = some root := by rw [← hroot, decode_toBytes]
    have habsence : absence witness = some native := by
      simp only [absence, hlow, hhigh, decode_toBytes, hpath.converts, Option.bind_eq_bind,
        Option.bind_some, Option.pure_def]
    rw [Bool.eq_iff_iff, verifiesAbsent_iff, accumulator_verifiesAbsent_iff habsence hdecoded]
    exact (and_iff_left hrange).symm
  matched _ := ⟨hlow, hhigh, hpath⟩

theorem Mirrors.absenceWitness {native : GapSet} {set : ExclusionSet depth} (hdepth : depth < 64)
    (hmirrors : Mirrors native set) (hroom : native.keys.length + 1 ≤ 2 ^ depth) {root : F}
    (hroot : Field.toBytes root = set.root.asBytes) (key : F) :
    ∃ nativeWitness witness, native.absenceWitness depth key = some nativeWitness ∧
      set.absenceWitness (Field.toBytes key) = some witness ∧
      Agree nativeWitness witness key root set.root := by
  obtain ⟨tree, htree, leaves, hholds, hleaves⟩ := hmirrors.tree hroom
  have hkeys : set.keys.length = native.keys.length := by rw [hmirrors, List.length_map]
  have hlength : leaves.length = native.gaps.length := by
    have hbuilt := congrArg List.length (ExclusionSet.leaves_tree
      (by omega : set.keys.length + 1 ≤ 2 ^ depth))
    rwa [hleaves, hmirrors.gaps, List.length_map, List.length_map, List.length_map] at hbuilt
  obtain ⟨gap, path, hgap, hpath, hwitness⟩ := absenceWitness_eq_some key htree hholds hlength
  have hhigh := high_le_of_mem_gaps (List.mem_of_getElem? hgap)
  have htop : (truncateKey key).val < 2 ^ 253 := by
    rw [truncateKey_val]
    exact Nat.mod_lt _ (by decide)
  by_cases hsentinel : (truncateKey key).val < 2 ^ 253 - 1
  · -- Both searches end at the same gap.
    rw [gapAt_of_lt native hsentinel, Option.getD_some] at hgap hpath
    have hcount : (set.keys.countP fun other => decide (other.toNatLe ≤
        (Accumulator.truncateKey (Field.toBytes key)).toNatLe)) =
          native.keys.countP fun other => decide (other.val ≤ (truncateKey key).val) := by
      rw [hmirrors, List.countP_map, ← toBytes_truncateKey, Field.toNatLe_toBytes]
      apply List.countP_congr
      intro other _
      rw [Function.comp, Field.toNatLe_toBytes]
    have hpaths := Tree.Mirrors.witness hdepth ⟨leaves, hholds, hleaves⟩
      (native.keys.countP fun other => decide (other.val ≤ (truncateKey key).val))
    rw [hpath] at hpaths
    cases hset : set.tree.witness
        (native.keys.countP fun other => decide (other.val ≤ (truncateKey key).val)) with
    | none =>
        rw [hset] at hpaths
        cases hpaths
    | some witness =>
        rw [hset] at hpaths
        cases hpaths with
        | some hmatches =>
            refine ⟨_, ⟨Field.toBytes gap.1, Field.toBytes gap.2, witness⟩, hwitness, ?_,
              agree_of_gap hroot rfl rfl hmatches (by dsimp only; omega)⟩
            rw [ExclusionSet.absenceWitness_eq, hcount, hmirrors.gaps, List.getElem?_map, hgap,
              Option.map_some, Option.bind_some, hset]
            rfl
  · -- At the upper sentinel the searches part, and neither witness verifies.
    obtain ⟨witness, hset, hverifies⟩ := ExclusionSet.verifiesAbsent_absenceWitness hdepth
      (by omega : set.keys.length + 1 ≤ 2 ^ depth) (Field.toBytes key)
    have hnot : Accumulator.verifiesAbsent (Field.toBytes key) witness set.root = false := by
      rw [← Bool.not_eq_true, hverifies, ← toBytes_truncateKey, Field.toNatLe_toBytes]
      rintro ⟨_, _, hne⟩
      exact hne (by rw [Accumulator.KEY_BITS]; omega)
    have hnotNative : verifiesAbsent key ⟨gap.1, gap.2, path⟩ root = false := by
      rw [← Bool.not_eq_true, verifiesAbsent_iff]
      intro haround
      have habove := haround.high
      rw [← truncateKey_val] at habove
      dsimp only at habove
      omega
    refine ⟨_, witness, hwitness, hset, ⟨by rw [hnot, hnotNative], ?_⟩⟩
    rw [hnotNative]
    intro hfalse
    cases hfalse

-- The two exclusion sets agree after every sequence of insertions: keys, gaps, root, and what
-- their witnesses prove.
theorem gap_sets_agree (hdepth : depth < 64) (keys : List F)
    (hcapacity : (keys.map truncateKey).dedup.length ≤ 2 ^ depth - 1) :
    ((keys.map Field.toBytes).foldl ExclusionSet.insert
        (ExclusionSet.new : ExclusionSet depth)).keys =
      (keys.foldl insert new).keys.map Field.toBytes ∧
    ((keys.map Field.toBytes).foldl ExclusionSet.insert
        (ExclusionSet.new : ExclusionSet depth)).gaps =
      (keys.foldl insert new).gaps.map (Prod.map Field.toBytes Field.toBytes) ∧
    ∃ root, (keys.foldl insert new).root depth = some root ∧
      Field.toBytes root = ((keys.map Field.toBytes).foldl ExclusionSet.insert
        (ExclusionSet.new : ExclusionSet depth)).root.asBytes ∧
      ∀ key, ∃ native witness,
        (keys.foldl insert new).absenceWitness depth key = some native ∧
        ((keys.map Field.toBytes).foldl ExclusionSet.insert
          (ExclusionSet.new : ExclusionSet depth)).absenceWitness (Field.toBytes key) =
            some witness ∧
        Agree native witness key root ((keys.map Field.toBytes).foldl ExclusionSet.insert
          (ExclusionSet.new : ExclusionSet depth)).root := by
  have hmirrors := mirrors_foldl_insert depth keys
  have hroom : (keys.foldl insert new).keys.length + 1 ≤ 2 ^ depth := by
    have hpositive : 0 < 2 ^ depth := Nat.two_pow_pos depth
    have hcount := ExclusionSet.length_keys_foldl_insert depth (keys.map Field.toBytes)
    have htruncations : (keys.map Field.toBytes).map Accumulator.truncateKey =
        (keys.map truncateKey).map Field.toBytes := by
      rw [List.map_map, List.map_map]
      exact List.map_congr_left fun key _ => (toBytes_truncateKey key).symm
    rw [hmirrors, List.length_map, htruncations,
      List.dedup_map_of_injective fun _ _ => Field.toBytes_inj.1, List.length_map] at hcount
    omega
  obtain ⟨tree, htree, hmirrored⟩ := hmirrors.tree hroom
  have hnative : (keys.foldl insert new).root depth = some tree.root := by
    rw [root, htree]
    rfl
  exact ⟨hmirrors, hmirrors.gaps, tree.root, hnative, hmirrored.root,
    hmirrors.absenceWitness hdepth hroom hmirrored.root⟩

-- One key twice, at the capacity of a depth-1 tree.
theorem gap_sets_agree_full :
    ((([7, 7] : List F).map Field.toBytes).foldl ExclusionSet.insert
        (ExclusionSet.new : ExclusionSet 1)).keys =
      (([7, 7] : List F).foldl insert new).keys.map Field.toBytes :=
  (gap_sets_agree (by decide) [7, 7] (by decide +kernel)).1

end GapSet

end Nymora.Plonk
