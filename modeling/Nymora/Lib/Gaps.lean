import Mathlib.Data.List.InsertIdx
import Mathlib.Order.Lattice

namespace Gaps

variable {α : Type}

-- The consecutive pairs of a list of bounds.
def gaps (bounds : List α) : List (α × α) := bounds.zip bounds.tail

@[simp] theorem gaps_nil : gaps ([] : List α) = [] := rfl

@[simp] theorem gaps_singleton (bound : α) : gaps [bound] = [] := rfl

@[simp] theorem gaps_cons_cons (low high : α) (bounds : List α) :
    gaps (low :: high :: bounds) = (low, high) :: gaps (high :: bounds) := rfl

theorem mem_of_mem_gaps {bounds : List α} {gap : α × α} (hgap : gap ∈ gaps bounds) :
    gap.1 ∈ bounds ∧ gap.2 ∈ bounds := by
  have hmem := List.of_mem_zip (a := gap.1) (b := gap.2) hgap
  exact ⟨hmem.1, List.mem_of_mem_tail hmem.2⟩

-- No bound of a list that ascends in rank lies strictly inside one of its gaps.
theorem not_mem_gap {β : Type} [LinearOrder β] (rank : α → β) {bounds : List α}
    (hsorted : bounds.Pairwise fun low high => rank low ≤ rank high)
    {gap : α × α} (hgap : gap ∈ gaps bounds) {bound : α} (hbound : bound ∈ bounds) :
    ¬ (rank gap.1 < rank bound ∧ rank bound < rank gap.2) := by
  induction bounds with
  | nil => cases hbound
  | cons first bounds ih =>
      obtain ⟨hfirst, hrest⟩ := List.pairwise_cons.1 hsorted
      cases bounds with
      | nil => cases hgap
      | cons second bounds =>
          rintro ⟨hlow, hhigh⟩
          rcases List.mem_cons.1 hgap with rfl | hlater
          · -- The first gap ends where every later bound begins.
            rcases List.mem_cons.1 hbound with rfl | hbound
            · exact lt_irrefl _ hlow
            · rcases List.mem_cons.1 hbound with rfl | hbound
              · exact lt_irrefl _ hhigh
              · exact not_le_of_gt hhigh ((List.pairwise_cons.1 hrest).1 bound hbound)
          · rcases List.mem_cons.1 hbound with rfl | hbound
            · exact not_le_of_gt hlow (hfirst gap.1 (mem_of_mem_gaps hlater).1)
            · exact ih hrest hlater hbound ⟨hlow, hhigh⟩

@[simp] theorem length_gaps (bounds : List α) : (gaps bounds).length = bounds.length - 1 := by
  simp [gaps]

theorem gaps_map {β : Type} (f : α → β) (bounds : List α) :
    gaps (bounds.map f) = (gaps bounds).map (Prod.map f f) := by
  rw [gaps, gaps, ← List.map_tail, List.zip_map]

theorem getElem?_gaps {bounds : List α} {index : Nat} {gap : α × α} :
    (gaps bounds)[index]? = some gap ↔
      bounds[index]? = some gap.1 ∧ bounds[index + 1]? = some gap.2 := by
  rw [gaps, List.getElem?_zip_eq_some, List.getElem?_tail]

-- A gap starts where the one before it ends.
theorem shared_bound {bounds : List α} {index : Nat} {gap next : α × α}
    (hgap : (gaps bounds)[index]? = some gap) (hnext : (gaps bounds)[index + 1]? = some next) :
    next.1 = gap.2 :=
  Option.some_inj.1 ((getElem?_gaps.1 hnext).1.symm.trans (getElem?_gaps.1 hgap).2)

theorem head?_gaps (bottom top : α) (keys : List α) :
    ∃ high, (gaps (bottom :: (keys ++ [top]))).head? = some (bottom, high) := by
  cases keys with
  | nil => exact ⟨top, rfl⟩
  | cons first keys => exact ⟨first, rfl⟩

theorem getLast?_gaps (bottom top : α) (keys : List α) :
    ∃ low, (gaps (bottom :: (keys ++ [top]))).getLast? = some (low, top) := by
  induction keys generalizing bottom with
  | nil => exact ⟨bottom, rfl⟩
  | cons first keys ih =>
      obtain ⟨low, hlow⟩ := ih first
      refine ⟨low, ?_⟩
      rw [List.cons_append, gaps_cons_cons, List.getLast?_cons, hlow, Option.getD_some]

section

variable {β : Type} [LinearOrder β] (rank : α → β) {bottom top : α} {keys : List α}

-- A new key goes after the keys below it, and the keys still ascend.
theorem pairwise_insertIdx {key : α}
    (hsorted : keys.Pairwise fun low high => rank low < rank high)
    (hnew : ∀ other ∈ keys, rank other ≠ rank key) :
    (keys.insertIdx (keys.countP fun other => rank other < rank key) key).Pairwise
      fun low high => rank low < rank high := by
  induction keys with
  | nil => exact List.pairwise_singleton _ _
  | cons first keys ih =>
      obtain ⟨hfirst, hrest⟩ := List.pairwise_cons.1 hsorted
      obtain ⟨hne, hothers⟩ := List.forall_mem_cons.1 hnew
      by_cases hbelow : rank first < rank key
      · rw [List.countP_cons_of_pos (by simpa using hbelow), List.insertIdx_succ_cons,
          List.pairwise_cons]
        refine ⟨?_, ih hrest hothers⟩
        intro other hother
        rcases List.eq_or_mem_of_mem_insertIdx hother with rfl | hother
        · exact hbelow
        · exact hfirst other hother
      · have habove : ∀ other ∈ first :: keys, rank key < rank other := by
          have hlow : rank key < rank first := lt_of_le_of_ne (le_of_not_gt hbelow) hne.symm
          intro other hother
          rcases List.mem_cons.1 hother with rfl | hother
          · exact hlow
          · exact lt_trans hlow (hfirst other hother)
        have hcount : (first :: keys).countP (fun other => decide (rank other < rank key)) = 0 := by
          rw [List.countP_eq_zero]
          intro other hother
          simpa using le_of_lt (habove other hother)
        rw [hcount]
        exact List.pairwise_cons.2 ⟨habove, hsorted⟩

-- Between bounds that ascend, every gap ends before a later one starts.
theorem pairwise_gaps {bounds : List α}
    (hsorted : bounds.Pairwise fun low high => rank low ≤ rank high) :
    (gaps bounds).Pairwise fun earlier later => rank earlier.2 ≤ rank later.1 := by
  induction bounds with
  | nil => exact List.Pairwise.nil
  | cons first bounds ih =>
      obtain ⟨_, hrest⟩ := List.pairwise_cons.1 hsorted
      cases bounds with
      | nil => exact List.Pairwise.nil
      | cons second bounds =>
          rw [gaps_cons_cons, List.pairwise_cons]
          refine ⟨?_, ih hrest⟩
          intro later hlater
          rcases List.mem_cons.1 (mem_of_mem_gaps hlater).1 with heq | hmem
          · exact le_of_eq (congrArg rank heq.symm)
          · exact (List.pairwise_cons.1 hrest).1 later.1 hmem

-- A target lies strictly inside one gap at most.
theorem index_unique {bounds : List α}
    (hsorted : bounds.Pairwise fun low high => rank low ≤ rank high) {target : β}
    {index other : Nat} {gap later : α × α} (hgap : (gaps bounds)[index]? = some gap)
    (hlater : (gaps bounds)[other]? = some later)
    (hinside : rank gap.1 < target ∧ target < rank gap.2)
    (hagain : rank later.1 < target ∧ target < rank later.2) : index = other := by
  have hpairwise := List.pairwise_iff_getElem.1 (pairwise_gaps rank hsorted)
  obtain ⟨hindex, rfl⟩ := List.getElem?_eq_some_iff.1 hgap
  obtain ⟨hother, rfl⟩ := List.getElem?_eq_some_iff.1 hlater
  rcases Nat.lt_trichotomy index other with hbefore | hsame | hafter
  · have hle := hpairwise index other hindex hother hbefore
    exact absurd (lt_trans (lt_of_lt_of_le hinside.2 hle) hagain.1) (lt_irrefl _)
  · exact hsame
  · have hle := hpairwise other index hother hindex hafter
    exact absurd (lt_trans (lt_of_lt_of_le hagain.2 hle) hinside.1) (lt_irrefl _)

-- The gaps leave out nothing between the first bound and the last.
theorem covered {target : β} (hfrom : rank bottom ≤ target) (hto : target ≤ rank top) :
    ∃ gap ∈ gaps (bottom :: (keys ++ [top])), rank gap.1 ≤ target ∧ target ≤ rank gap.2 := by
  induction keys generalizing bottom with
  | nil => exact ⟨(bottom, top), List.mem_cons_self, hfrom, hto⟩
  | cons first keys ih =>
      by_cases hbelow : target ≤ rank first
      · exact ⟨(bottom, first), List.mem_cons_self, hfrom, hbelow⟩
      · obtain ⟨gap, hgap, hwithin⟩ := ih (le_of_lt (lt_of_not_ge hbelow))
        exact ⟨gap, List.mem_cons_of_mem _ hgap, hwithin⟩

private theorem narrow_at_top (hsorted : keys.Pairwise fun low high => rank low < rank high)
    (htop : ∀ key ∈ keys, rank key ≤ rank top) {gap : α × α}
    (hgap : gap ∈ gaps (keys ++ [top])) :
    rank gap.1 < rank gap.2 ∨ gap.1 ∈ keys ∧ rank gap.1 = rank top ∧ gap.2 = top := by
  induction keys with
  | nil => cases hgap
  | cons first keys ih =>
      obtain ⟨hfirst, hrest⟩ := List.pairwise_cons.1 hsorted
      cases keys with
      | nil =>
          rw [List.mem_singleton.1 hgap]
          rcases lt_or_eq_of_le (htop first List.mem_cons_self) with hlt | heq
          · exact .inl hlt
          · exact .inr ⟨List.mem_cons_self, heq, rfl⟩
      | cons second keys =>
          rcases List.mem_cons.1 hgap with rfl | hlater
          · exact .inl (hfirst second List.mem_cons_self)
          · rcases ih hrest (fun key hkey => htop key (List.mem_cons_of_mem _ hkey)) hlater with
              hlt | ⟨hkey, hend⟩
            · exact .inl hlt
            · exact .inr ⟨List.mem_cons_of_mem _ hkey, hend⟩

-- A gap is empty only between an end and a key that was placed on it.
theorem narrow (hsorted : keys.Pairwise fun low high => rank low < rank high)
    (hbottom : ∀ key ∈ keys, rank bottom ≤ rank key) (htop : ∀ key ∈ keys, rank key ≤ rank top)
    (hends : rank bottom < rank top) {gap : α × α}
    (hgap : gap ∈ gaps (bottom :: (keys ++ [top]))) :
    rank gap.1 < rank gap.2 ∨ (gap.1 = bottom ∧ gap.2 ∈ keys ∧ rank gap.2 = rank bottom) ∨
      (gap.1 ∈ keys ∧ rank gap.1 = rank top ∧ gap.2 = top) := by
  cases keys with
  | nil =>
      rw [List.mem_singleton.1 hgap]
      exact .inl hends
  | cons first keys =>
      rcases List.mem_cons.1 hgap with rfl | hlater
      · rcases lt_or_eq_of_le (hbottom first List.mem_cons_self) with hlt | heq
        · exact .inl hlt
        · exact .inr (.inl ⟨rfl, List.mem_cons_self, heq.symm⟩)
      · rcases narrow_at_top rank hsorted htop hlater with hlt | hend
        · exact .inl hlt
        · exact .inr (.inr hend)

-- The number of keys at or below a target is the index of the gap it falls into. The gap holds
-- the target strictly inside unless the target is one of the bounds.
theorem located (target : β) (hsorted : keys.Pairwise fun low high => rank low < rank high)
    (hbottom : ∀ key ∈ keys, rank bottom ≤ rank key) (htop : ∀ key ∈ keys, rank key ≤ rank top)
    (hfrom : rank bottom ≤ target) (hto : target ≤ rank top) :
    ∃ gap, (gaps (bottom :: (keys ++ [top])))[keys.countP fun key => rank key ≤ target]? =
        some gap ∧
      (rank gap.1 < target ∧ target < rank gap.2 ↔
        (∀ key ∈ keys, rank key ≠ target) ∧ target ≠ rank bottom ∧ target ≠ rank top) := by
  induction keys generalizing bottom with
  | nil =>
      refine ⟨(bottom, top), rfl, ?_⟩
      rw [lt_iff_le_and_ne, lt_iff_le_and_ne]
      simp [hfrom, hto, ne_comm]
  | cons first keys ih =>
      obtain ⟨hfirst, hrest⟩ := List.pairwise_cons.1 hsorted
      by_cases hbelow : rank first ≤ target
      · obtain ⟨gap, hgap, hinside⟩ := ih hrest (fun key hkey => le_of_lt (hfirst key hkey))
          (fun key hkey => htop key (List.mem_cons_of_mem _ hkey)) hbelow
        have hlowest := hbottom first List.mem_cons_self
        refine ⟨gap, ?_, ?_⟩
        · rw [List.countP_cons_of_pos (by simpa using hbelow), List.cons_append, gaps_cons_cons,
            List.getElem?_cons_succ]
          exact hgap
        · rw [hinside, List.forall_mem_cons]
          constructor
          · rintro ⟨hkeys, hne, hend⟩
            refine ⟨⟨hne.symm, hkeys⟩, ?_, hend⟩
            rintro rfl
            exact hne (le_antisymm hlowest hbelow)
          · rintro ⟨⟨hne, hkeys⟩, _, hend⟩
            exact ⟨hkeys, hne.symm, hend⟩
      · -- Every key lies above the target, which the first gap holds.
        have habove : ∀ key ∈ first :: keys, target < rank key := by
          intro key hkey
          rcases List.mem_cons.1 hkey with rfl | hkey
          · exact lt_of_not_ge hbelow
          · exact lt_trans (lt_of_not_ge hbelow) (hfirst key hkey)
        have hcount : (first :: keys).countP (fun key => decide (rank key ≤ target)) = 0 := by
          rw [List.countP_eq_zero]
          intro key hkey
          simpa using habove key hkey
        have hnext := habove first List.mem_cons_self
        have hend : target < rank top := lt_of_lt_of_le hnext (htop first List.mem_cons_self)
        refine ⟨(bottom, first), by rw [hcount]; rfl, ?_⟩
        constructor
        · rintro ⟨hlow, _⟩
          exact ⟨fun key hkey => (habove key hkey).ne', hlow.ne', hend.ne⟩
        · rintro ⟨_, hne, _⟩
          exact ⟨lt_of_le_of_ne hfrom hne.symm, hnext⟩

-- The first gap that starts at or below a target and ends above it is that gap.
theorem findIdx?_gaps {target : β} (hsorted : keys.Pairwise fun low high => rank low < rank high)
    (hfrom : rank bottom ≤ target) (hto : target < rank top) :
    (gaps (bottom :: (keys ++ [top]))).findIdx? (fun gap =>
        decide (rank gap.1 ≤ target) && decide (target < rank gap.2)) =
      some (keys.countP fun key => rank key ≤ target) := by
  induction keys generalizing bottom with
  | nil => simp [hfrom, hto]
  | cons first keys ih =>
      obtain ⟨hfirst, hrest⟩ := List.pairwise_cons.1 hsorted
      rw [List.cons_append, gaps_cons_cons, List.findIdx?_cons]
      by_cases hbelow : rank first ≤ target
      · rw [ih hrest hbelow, List.countP_cons_of_pos (by simpa using hbelow)]
        simp [hbelow]
      · have hcount : (first :: keys).countP (fun key => decide (rank key ≤ target)) = 0 := by
          rw [List.countP_eq_zero]
          intro key hkey
          rcases List.mem_cons.1 hkey with rfl | hkey
          · simpa using hbelow
          · simpa using lt_trans (lt_of_not_ge hbelow) (hfirst key hkey)
        rw [hcount, if_pos]
        simpa [hfrom] using hbelow

end

end Gaps
