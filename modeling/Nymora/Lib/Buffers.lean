import Mathlib.Data.List.Induction

namespace Buffers

variable {α : Type}

-- A subrange of a buffer, if it is in bounds.
def slice (xs : List α) (start stop : Nat) : Option (List α) :=
  if start ≤ stop ∧ stop ≤ xs.length then some ((xs.take stop).drop start) else none

-- A buffer with the values written from an index on, if they fit.
def overwrite (xs : List α) (start : Nat) (values : List α) : Option (List α) :=
  if start + values.length ≤ xs.length then
    some (xs.take start ++ values ++ xs.drop (start + values.length))
  else none

-- The index of the last element that meets a predicate.
def rposition (xs : List α) (p : α → Bool) : Option Nat :=
  (xs.reverse.findIdx? p).map fun back => xs.length - 1 - back

theorem slice_middle (before middle after : List α) :
    slice (before ++ middle ++ after) before.length (before.length + middle.length) =
      some middle := by
  have hbound : before.length ≤ before.length + middle.length ∧
      before.length + middle.length ≤ (before ++ middle ++ after).length := by
    simp only [List.length_append]
    omega
  rw [slice, if_pos hbound, ← List.length_append, List.take_left, List.drop_left]

theorem slice_eq_some {xs taken : List α} {start stop : Nat}
    (hslice : slice xs start stop = some taken) :
    start ≤ stop ∧ stop ≤ xs.length ∧ taken.length = stop - start := by
  unfold slice at hslice
  split at hslice
  next hbound =>
    cases hslice
    refine ⟨hbound.1, hbound.2, ?_⟩
    rw [List.length_drop, List.length_take_of_le hbound.2]
  next => cases hslice

theorem overwrite_middle (before old after : List α) {values : List α}
    (hlength : old.length = values.length) :
    overwrite (before ++ old ++ after) before.length values =
      some (before ++ values ++ after) := by
  have hbound : before.length + values.length ≤ (before ++ old ++ after).length := by
    simp only [List.length_append]
    omega
  rw [overwrite, if_pos hbound, ← hlength, ← List.length_append, List.drop_left,
    List.append_assoc before, List.take_left]

theorem overwrite_eq_some {xs written values : List α} {start : Nat}
    (hwrite : overwrite xs start values = some written) :
    start + values.length ≤ xs.length ∧
      written = xs.take start ++ values ++ xs.drop (start + values.length) := by
  unfold overwrite at hwrite
  split at hwrite
  next hbound => exact ⟨hbound, (Option.some_inj.1 hwrite).symm⟩
  next => cases hwrite

-- Writing in two goes is writing at once.
theorem overwrite_append (xs : List α) (start : Nat) (first second : List α) :
    overwrite xs start (first ++ second) =
      (overwrite xs start first).bind fun written =>
        overwrite written (start + first.length) second := by
  by_cases hfirst : start + first.length ≤ xs.length
  · obtain ⟨before, old, after, rfl, hbefore, hold⟩ :
        ∃ before old after, xs = before ++ old ++ after ∧ before.length = start ∧
          old.length = first.length := by
      refine ⟨xs.take start, (xs.drop start).take first.length,
        (xs.drop start).drop first.length, ?_, ?_, ?_⟩
      · rw [List.append_assoc, List.take_append_drop, List.take_append_drop]
      · rw [List.length_take]
        omega
      · rw [List.length_take, List.length_drop]
        omega
    subst hbefore
    rw [overwrite_middle before old after hold, Option.bind_some, ← List.length_append]
    by_cases hsecond : second.length ≤ after.length
    · obtain ⟨next, rest, rfl, hnext⟩ : ∃ next rest, after = next ++ rest ∧
          next.length = second.length :=
        ⟨after.take second.length, after.drop second.length,
          (List.take_append_drop _ _).symm, by rw [List.length_take]; omega⟩
      have hwhole : (old ++ next).length = (first ++ second).length := by
        simp only [List.length_append]
        omega
      have hwritten := overwrite_middle before (old ++ next) rest hwhole
      rw [← List.append_assoc (before ++ first), overwrite_middle (before ++ first) next rest hnext]
      simpa only [List.append_assoc] using hwritten
    · rw [overwrite, if_neg, overwrite, if_neg]
      all_goals simp only [List.length_append]; omega
  · rw [overwrite, overwrite, if_neg hfirst, if_neg, Option.bind_none]
    rw [List.length_append]
    omega

theorem findIdx?_skip {p : α → Bool} {lead rest : List α} {found : α}
    (hlead : ∀ x ∈ lead, p x = false) (hfound : p found = true) :
    (lead ++ found :: rest).findIdx? p = some lead.length := by
  induction lead with
  | nil => simp [List.findIdx?_cons, hfound]
  | cons first lead ih =>
      obtain ⟨hfirst, hothers⟩ := List.forall_mem_cons.1 hlead
      rw [List.cons_append, List.findIdx?_cons, hfirst, ih hothers]
      rfl

theorem rposition_skip {p : α → Bool} {before trail : List α} {found : α}
    (htrail : ∀ x ∈ trail, p x = false) (hfound : p found = true) :
    rposition (before ++ found :: trail) p = some before.length := by
  have hreverse : (before ++ found :: trail).reverse =
      trail.reverse ++ found :: before.reverse := by simp
  rw [rposition, hreverse, findIdx?_skip (fun x hx => htrail x (List.mem_reverse.1 hx)) hfound,
    Option.map_some, List.length_append, List.length_cons, List.length_reverse]
  congr 1
  omega

-- A list whose ends, if it has any, do not meet a predicate.
structure Tight (p : α → Bool) (middle : List α) : Prop where
  head : ∀ x ∈ middle.head?, p x = false
  last : ∀ x ∈ middle.getLast?, p x = false

theorem exists_trimmed_right (p : α → Bool) (xs : List α) :
    ∃ middle trail, xs = middle ++ trail ∧ (∀ x ∈ trail, p x = true) ∧
      ∀ x ∈ middle.getLast?, p x = false := by
  induction xs using List.reverseRecOn with
  | nil => exact ⟨[], [], rfl, by simp, by simp⟩
  | append_singleton xs last ih =>
      cases hlast : p last with
      | true =>
          obtain ⟨middle, trail, rfl, htrail, htight⟩ := ih
          refine ⟨middle, trail ++ [last], by simp, ?_, htight⟩
          intro x hx
          rcases List.mem_append.1 hx with hx | hx
          · exact htrail x hx
          · rw [List.mem_singleton.1 hx, hlast]
      | false => exact ⟨xs ++ [last], [], by simp, by simp, by simp [hlast]⟩

-- What is left of a list when both its ends are stripped.
theorem exists_tight (p : α → Bool) (xs : List α) :
    ∃ lead middle trail, xs = lead ++ middle ++ trail ∧ (∀ x ∈ lead, p x = true) ∧
      (∀ x ∈ trail, p x = true) ∧ Tight p middle := by
  induction xs with
  | nil => exact ⟨[], [], [], rfl, by simp, by simp, by simp, by simp⟩
  | cons first xs ih =>
      cases hfirst : p first with
      | true =>
          obtain ⟨lead, middle, trail, rfl, hlead, htrail, htight⟩ := ih
          exact ⟨first :: lead, middle, trail, rfl, by simpa [hfirst] using hlead, htrail, htight⟩
      | false =>
          obtain ⟨middle, trail, hsplit, htrail, hlast⟩ := exists_trimmed_right p (first :: xs)
          refine ⟨[], middle, trail, hsplit, by simp, htrail, ?_, hlast⟩
          cases middle with
          | nil => simp
          | cons head middle =>
              rw [List.cons_append, List.cons.injEq] at hsplit
              simpa [← hsplit.1] using hfirst

end Buffers
