import Nymora.Lib.Constrained

namespace Constrained

variable {α β σ : Type} {condition later : Prop} {value : α}

-- A gadget's law: what its constraints ask, and the value it assigns where they hold.
structure Yields (gadget : Constrained α) (condition : Prop) (value : α) : Prop where
  satisfied : gadget.satisfied ↔ condition
  value : condition → gadget.value = value

-- A gadget whose constraints only tie its value to its inputs.
def Computes (gadget : Constrained α) (value : α) : Prop := gadget.Yields True value

-- A gadget that only checks.
def Asserts (gadget : Constrained Unit) (condition : Prop) : Prop := gadget.Yields condition ()

theorem computes_pure (value : α) : (pure value : Constrained α).Computes value :=
  ⟨Iff.rfl, fun _ => rfl⟩

theorem computes_assign (value : α) : (assign value).Computes value := ⟨Iff.rfl, fun _ => rfl⟩

theorem asserts_constrain (condition : Prop) : (constrain condition).Asserts condition :=
  ⟨Iff.rfl, fun _ => rfl⟩

theorem Yields.bind {first : Constrained α} {rest : α → Constrained β} {result : β}
    (hfirst : first.Yields condition value) (hrest : (rest value).Yields later result) :
    (first >>= rest).Yields (condition ∧ later) result where
  satisfied := by
    rw [satisfied_bind, hfirst.satisfied]
    apply and_congr_right
    intro hcondition
    rw [hfirst.value hcondition]
    exact hrest.satisfied
  value := by
    intro hboth
    rw [value_bind, hfirst.value hboth.1]
    exact hrest.value hboth.2

theorem Yields.congr {gadget : Constrained α} (hgadget : gadget.Yields condition value)
    (hcondition : condition ↔ later) : gadget.Yields later value :=
  ⟨hgadget.satisfied.trans hcondition, fun hlater => hgadget.value (hcondition.2 hlater)⟩

-- What a computed value adds to a gadget: nothing.
theorem Computes.bind {first : Constrained α} {rest : α → Constrained β} {result : β}
    (hfirst : first.Computes value) (hrest : (rest value).Yields condition result) :
    (first >>= rest).Yields condition result :=
  (Yields.bind hfirst hrest).congr ⟨And.right, And.intro trivial⟩

-- A loop whose every turn computes one step of a fold computes the fold.
theorem computes_foldlM {step : σ → α → Constrained σ} {next : σ → α → σ}
    (hstep : ∀ state item, (step state item).Computes (next state item)) (items : List α)
    (state : σ) : (items.foldlM step state).Computes (items.foldl next state) := by
  induction items generalizing state with
  | nil => exact computes_pure state
  | cons item items ih =>
    rw [List.foldlM_cons, List.foldl_cons]
    exact Computes.bind (hstep state item) (ih (next state item))

end Constrained

-- A circuit under synthesis: the cells it publishes in their order, over the constraints and
-- the value of its gadgets.
structure Synthesis (κ α : Type) where
  published : List κ
  satisfied : Prop
  value : α

namespace Synthesis

variable {κ α β : Type}

instance : Monad (Synthesis κ) where
  pure value := ⟨[], True, value⟩
  bind first rest := ⟨first.published ++ (rest first.value).published,
    first.satisfied ∧ (rest first.value).satisfied, (rest first.value).value⟩

instance : MonadLift Constrained (Synthesis κ) where
  monadLift gadget := ⟨[], gadget.satisfied, gadget.value⟩

-- Assigns a cell and exposes it to the verifier.
def publish (cell : κ) : Synthesis κ κ := ⟨[cell], True, cell⟩

-- A cell that is exposed, and ties nothing down.
structure Publishes (circuit : Synthesis κ κ) (cell : κ) : Prop where
  published : circuit.published = [cell]
  satisfied : circuit.satisfied
  value : circuit.value = cell

theorem publishes_publish (cell : κ) : (publish cell).Publishes cell := ⟨rfl, trivial, rfl⟩

-- What a whole circuit publishes, and what it asks.
structure Law (circuit : Synthesis κ Unit) (published : List κ) (condition : Prop) : Prop where
  published : circuit.published = published
  satisfied : circuit.satisfied ↔ condition

variable {published : List κ} {condition : Prop}

theorem Publishes.bind {first : Synthesis κ κ} {rest : κ → Synthesis κ Unit} {cell : κ}
    (hfirst : first.Publishes cell) (hrest : (rest cell).Law published condition) :
    (first >>= rest).Law (cell :: published) condition where
  published := by
    change first.published ++ (rest first.value).published = cell :: published
    rw [hfirst.published, hfirst.value, hrest.published]
    rfl
  satisfied := by
    change first.satisfied ∧ (rest first.value).satisfied ↔ condition
    rw [hfirst.value, hrest.satisfied]
    exact and_iff_right hfirst.satisfied

-- A gadget publishes nothing.
theorem law_lift {gadget : Constrained Unit} (hgadget : gadget.Asserts condition) :
    (liftM gadget : Synthesis κ Unit).Law [] condition :=
  ⟨rfl, Constrained.Yields.satisfied hgadget⟩

end Synthesis
