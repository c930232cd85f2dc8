-- A circuit gadget: the value it assigns, under the constraints it imposes on the way.
structure Constrained (α : Type) where
  satisfied : Prop
  value : α

namespace Constrained

variable {α β : Type}

def assign (value : α) : Constrained α := ⟨True, value⟩

def constrain (condition : Prop) : Constrained Unit := ⟨condition, ()⟩

instance : Monad Constrained where
  pure := assign
  bind first rest := ⟨first.satisfied ∧ (rest first.value).satisfied, (rest first.value).value⟩

@[simp] theorem satisfied_pure (value : α) : (pure value : Constrained α).satisfied = True := rfl

@[simp] theorem value_pure (value : α) : (pure value : Constrained α).value = value := rfl

@[simp] theorem satisfied_bind (first : Constrained α) (rest : α → Constrained β) :
    (first >>= rest).satisfied = (first.satisfied ∧ (rest first.value).satisfied) := rfl

@[simp] theorem value_bind (first : Constrained α) (rest : α → Constrained β) :
    (first >>= rest).value = (rest first.value).value := rfl

end Constrained
