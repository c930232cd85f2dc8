import Mathlib.Data.Set.Function

namespace HashChain

variable {α β : Type}

-- The digest after each entry of a chain.
def digests (step : α → β → α) : α → List β → List α
  | _, [] => []
  | chain, entry :: entries => step chain entry :: digests step (step chain entry) entries

-- The pairs of a previous digest and an entry that a chain hashes.
def links (step : α → β → α) : α → List β → List (α × β)
  | _, [] => []
  | chain, entry :: entries => (chain, entry) :: links step (step chain entry) entries

variable {step : α → β → α}

@[simp] theorem length_digests (chain : α) (entries : List β) :
    (digests step chain entries).length = entries.length := by
  induction entries generalizing chain with
  | nil => rfl
  | cons entry entries ih => rw [digests, List.length_cons, ih, List.length_cons]

-- Two chains that share a digest share their start and every entry below it. The starts differ
-- in the induction: the tails are chained from the digests of the heads.
theorem take_eq_of_digest_eq {start other digest : α} {first second : List β} {index : Nat}
    (hinjective : Set.InjOn (fun link : α × β => step link.1 link.2)
      {link | link ∈ links step start first ++ links step other second})
    (hfirst : (digests step start first)[index]? = some digest)
    (hsecond : (digests step other second)[index]? = some digest) :
    start = other ∧ first.take (index + 1) = second.take (index + 1) := by
  induction index generalizing start other first second with
  | zero =>
      cases first with
      | nil => cases hfirst
      | cons entry first =>
          cases second with
          | nil => cases hsecond
          | cons later second =>
              have hstep : step start entry = step other later := by
                rw [digests, List.getElem?_cons_zero, Option.some_inj] at hfirst hsecond
                rw [hfirst, hsecond]
              have hlink : (start, entry) = (other, later) :=
                hinjective (by simp [links]) (by simp [links]) hstep
              obtain ⟨rfl, rfl⟩ := Prod.mk.inj hlink
              exact ⟨rfl, rfl⟩
  | succ index ih =>
      cases first with
      | nil => cases hfirst
      | cons entry first =>
          cases second with
          | nil => cases hsecond
          | cons later second =>
              rw [digests, List.getElem?_cons_succ] at hfirst hsecond
              have hmono : {link | link ∈ links step (step start entry) first ++
                  links step (step other later) second} ⊆
                  {link | link ∈ links step start (entry :: first) ++
                    links step other (later :: second)} := by
                intro link hlink
                simp only [links, Set.mem_ofPred_eq, List.mem_append, List.mem_cons] at hlink ⊢
                tauto
              obtain ⟨hstep, htail⟩ := ih (hinjective.mono hmono) hfirst hsecond
              have hlink : (start, entry) = (other, later) :=
                hinjective (by simp [links]) (by simp [links]) hstep
              obtain ⟨rfl, rfl⟩ := Prod.mk.inj hlink
              rw [List.take_succ_cons, List.take_succ_cons, htail]
              exact ⟨rfl, rfl⟩

end HashChain
