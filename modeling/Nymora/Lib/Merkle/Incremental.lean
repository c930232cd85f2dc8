import Nymora.Lib.Merkle

namespace Merkle

variable {α : Type}

-- Writes one node of a level: past the level's end it is pushed, elsewhere overwritten.
def place (row : List α) (index : Nat) (value : α) : List α :=
  if row.length ≤ index then row ++ [value] else row.set index value

theorem getElem?_place {row : List α} {index : Nat} {value : α} (hindex : index ≤ row.length)
    (other : Nat) :
    (place row index value)[other]? = if other = index then some value else row[other]? := by
  unfold place
  by_cases hpush : row.length ≤ index
  · have hend : index = row.length := Nat.le_antisymm hindex hpush
    rw [if_pos hpush, hend]
    by_cases hother : other = row.length
    · simp [hother]
    · rw [if_neg hother, List.getElem?_append]
      by_cases hbefore : other < row.length
      · rw [if_pos hbefore]
      · rw [if_neg hbefore, List.getElem?_eq_none (Nat.le_of_not_lt hbefore)]
        exact List.getElem?_eq_none (by simp only [List.length_singleton]; omega)
  · rw [if_neg hpush]
    by_cases hother : other = index
    · rw [if_pos hother, hother, List.getElem?_set_self (Nat.lt_of_not_le hpush)]
    · rw [if_neg hother, List.getElem?_set_ne (Ne.symm hother)]

variable (node : α → α → α) (empty : α)

-- A level ends at the ancestor of the last leaf.
theorem length_level_concat (leaves : List α) (leaf : α) (height : Nat) :
    (level node empty (leaves ++ [leaf]) height).length = leaves.length / 2 ^ height + 1 := by
  induction height with
  | zero => simp [level]
  | succ height ih =>
      have hdiv : leaves.length / 2 ^ (height + 1) = leaves.length / 2 ^ height / 2 := by
        rw [pow_succ, Nat.div_div_eq_div_mul]
      rw [length_level_succ, ih, hdiv]
      omega

-- The ancestor of the next leaf is the last node of its level, or the one after it.
theorem length_level_bounds (leaves : List α) (height : Nat) :
    leaves.length / 2 ^ height ≤ (level node empty leaves height).length ∧
      (level node empty leaves height).length ≤ leaves.length / 2 ^ height + 1 := by
  induction leaves using List.reverseRecOn with
  | nil =>
      have hnone : (level node empty [] height).length ≤ 0 := length_level_le [] height 0 (by simp)
      simp only [List.length_nil, Nat.zero_div]
      omega
  | append_singleton leaves leaf _ =>
      have hstep : (leaves.length + 1) / 2 ^ height ≤ leaves.length / 2 ^ height + 1 := by
        rw [Nat.succ_div]
        split
        · exact Nat.le_refl _
        · exact Nat.le_succ _
      have hmono : leaves.length / 2 ^ height ≤ (leaves.length + 1) / 2 ^ height :=
        Nat.div_le_div_right (Nat.le_succ _)
      rw [length_level_concat, List.length_append, List.length_singleton]
      omega

-- Only the ancestors of a new leaf change.
theorem nodeAt_concat_of_ne {leaves : List α} (leaf : α) {height index : Nat}
    (hindex : index ≠ leaves.length / 2 ^ height) :
    nodeAt node empty (leaves ++ [leaf]) height index = nodeAt node empty leaves height index := by
  induction height generalizing index with
  | zero =>
      rw [pow_zero, Nat.div_one] at hindex
      rw [nodeAt_zero, nodeAt_zero, List.getElem?_append]
      by_cases hbefore : index < leaves.length
      · rw [if_pos hbefore]
      · have hafter : [leaf].length ≤ index - leaves.length := by
          rw [List.length_singleton]
          omega
        rw [if_neg hbefore, List.getElem?_eq_none hafter,
          List.getElem?_eq_none (Nat.le_of_not_lt hbefore)]
  | succ height ih =>
      have hdiv : leaves.length / 2 ^ (height + 1) = leaves.length / 2 ^ height / 2 := by
        rw [pow_succ, Nat.div_div_eq_div_mul]
      rw [nodeAt_succ, nodeAt_succ, ih (by omega), ih (by omega)]

-- Appending a leaf writes one node of each level: the ancestor of the leaf.
theorem level_concat (leaves : List α) (leaf : α) (height : Nat) :
    level node empty (leaves ++ [leaf]) height =
      place (level node empty leaves height) (leaves.length / 2 ^ height)
        (nodeAt node empty (leaves ++ [leaf]) height (leaves.length / 2 ^ height)) := by
  obtain ⟨hlow, hhigh⟩ := length_level_bounds node empty leaves height
  have hlength := length_level_concat node empty leaves leaf height
  apply List.ext_getElem?
  intro index
  rw [getElem?_place hlow]
  by_cases hindex : index = leaves.length / 2 ^ height
  · have hplaced : index < (level node empty (leaves ++ [leaf]) height).length := by omega
    rw [if_pos hindex, ← hindex, nodeAt, List.getElem?_eq_getElem hplaced, Option.getD_some]
  · rw [if_neg hindex]
    by_cases hplaced : index < (level node empty leaves height).length
    · have hkept := nodeAt_concat_of_ne node empty leaf hindex
      have hgrown : index < (level node empty (leaves ++ [leaf]) height).length := by omega
      rw [nodeAt, nodeAt, List.getElem?_eq_getElem hplaced, List.getElem?_eq_getElem hgrown,
        Option.getD_some, Option.getD_some] at hkept
      rw [List.getElem?_eq_getElem hplaced, List.getElem?_eq_getElem hgrown, hkept]
    · rw [List.getElem?_eq_none (Nat.le_of_not_lt hplaced)]
      exact List.getElem?_eq_none (by omega)

end Merkle
