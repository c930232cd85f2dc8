import Mathlib.Data.Set.Insert
import Nymora.Lib.Method

-- A key-value store any of whose operations may fail. The script says how the next operations
-- go, one entry each: `none` works, and so does every operation past its end.
structure FaultyStore (κ β ε : Type) where
  held : κ → Option β
  faults : List (Option ε)

namespace FaultyStore

variable {κ β ε α : Type}

-- How the operation at an index of the script fails, if it does.
def fault (store : FaultyStore κ β ε) (index : Nat) : Option ε := store.faults.getD index none

-- The store past one more operation.
def used (store : FaultyStore κ β ε) (held : κ → Option β) : FaultyStore κ β ε :=
  ⟨held, store.faults.tail⟩

@[simp] theorem held_used (store : FaultyStore κ β ε) (held : κ → Option β) :
    (store.used held).held = held := rfl

@[simp] theorem fault_used (store : FaultyStore κ β ε) (held : κ → Option β) (index : Nat) :
    (store.used held).fault index = store.fault (index + 1) := by
  unfold fault used
  cases store.faults with
  | nil => rfl
  | cons _ _ => rfl

-- One operation. A failed one leaves every key as it was.
def attempt (operation : (κ → Option β) → α × (κ → Option β)) :
    EStateM ε (FaultyStore κ β ε) α := fun store =>
  match store.fault 0 with
  | some fault => .error fault (store.used store.held)
  | none => .ok (operation store.held).1 (store.used (operation store.held).2)

def fetch (key : κ) : EStateM ε (FaultyStore κ β ε) (Option β) :=
  attempt fun held => (held key, held)

section Writing

variable [DecidableEq κ]

def put (key : κ) (value : β) : EStateM ε (FaultyStore κ β ε) Unit :=
  attempt fun held => ((), Function.update held key (some value))

def erase (key : κ) : EStateM ε (FaultyStore κ β ε) Unit :=
  attempt fun held => ((), Function.update held key none)

end Writing

variable {store after : FaultyStore κ β ε} {key : κ}

section Outcomes

variable {operation : (κ → Option β) → α × (κ → Option β)} {refusal : ε}

theorem attempt_eq_ok {result : α} :
    attempt operation store = .ok result after ↔ store.fault 0 = none ∧
      result = (operation store.held).1 ∧ after = store.used (operation store.held).2 := by
  unfold attempt
  cases store.fault 0 with
  | none => simp [eq_comm]
  | some fault => simp

theorem attempt_eq_error :
    attempt operation store = .error refusal after ↔
      store.fault 0 = some refusal ∧ after = store.used store.held := by
  unfold attempt
  cases store.fault 0 with
  | none => simp
  | some fault => simp [eq_comm]

theorem fetch_eq_ok {result : Option β} :
    fetch key store = .ok result after ↔
      store.fault 0 = none ∧ result = store.held key ∧ after = store.used store.held :=
  attempt_eq_ok

variable [DecidableEq κ]

theorem put_eq_ok {value : β} {result : Unit} :
    put key value store = .ok result after ↔ store.fault 0 = none ∧
      after = store.used (Function.update store.held key (some value)) := by
  unfold put
  rw [attempt_eq_ok]
  simp

theorem put_eq_error {value : β} :
    put key value store = .error refusal after ↔
      store.fault 0 = some refusal ∧ after = store.used store.held := attempt_eq_error

theorem erase_eq_ok {result : Unit} :
    erase key store = .ok result after ↔ store.fault 0 = none ∧
      after = store.used (Function.update store.held key none) := by
  unfold erase
  rw [attempt_eq_ok]
  simp

theorem erase_eq_error :
    erase key store = .error refusal after ↔
      store.fault 0 = some refusal ∧ after = store.used store.held := attempt_eq_error

end Outcomes

section Accounting

-- A stretch of operations none of which failed, by how many there were.
structure Spent (count : Nat) (store after : FaultyStore κ β ε) : Prop where
  worked : ∀ index, index < count → store.fault index = none
  rest : ∀ index, after.fault index = store.fault (index + count)

theorem Spent.nothing (store : FaultyStore κ β ε) : Spent 0 store store :=
  ⟨fun _ hlt => absurd hlt (Nat.not_lt_zero _), fun _ => rfl⟩

theorem spent_used {held : κ → Option β} (hfault : store.fault 0 = none) :
    Spent 1 store (store.used held) := by
  constructor
  · intro index hlt
    obtain rfl : index = 0 := by omega
    exact hfault
  · intro index
    exact fault_used store held index

theorem Spent.trans {first second : Nat} {middle : FaultyStore κ β ε}
    (hfirst : Spent first store middle) (hsecond : Spent second middle after) :
    Spent (first + second) store after := by
  constructor
  · intro index hlt
    by_cases hsmall : index < first
    · exact hfirst.worked index hsmall
    · have hworked := hsecond.worked (index - first) (by omega)
      rw [hfirst.rest] at hworked
      rwa [Nat.sub_add_cancel (by omega)] at hworked
  · intro index
    rw [hsecond.rest, hfirst.rest]
    congr 1
    omega

end Accounting

section Confinement

variable {erasable writable : Set κ}

-- What holds whatever fails: a key outside two sets keeps its value, and one that is only
-- erasable keeps it or loses it.
def Confined (erasable writable : Set κ) (store after : FaultyStore κ β ε) : Prop :=
  ∀ other ∉ writable, after.held other = store.held other ∨
    other ∈ erasable ∧ after.held other = none

instance : Std.Refl (@Confined κ β ε erasable writable) := ⟨fun _ _ _ => .inl rfl⟩

instance : IsTrans (FaultyStore κ β ε) (Confined erasable writable) := by
  constructor
  intro store middle after hfirst hsecond other hother
  rcases hsecond other hother with hkept | hgone
  · rw [hkept]
    exact hfirst other hother
  · exact .inr hgone

theorem Confined.trans {middle : FaultyStore κ β ε}
    (hfirst : Confined erasable writable store middle)
    (hsecond : Confined erasable writable middle after) : Confined erasable writable store after :=
  IsTrans.trans _ _ _ hfirst hsecond

-- An operation that left every key alone.
theorem confined_used : Confined erasable writable store (store.used store.held) :=
  fun _ _ => .inl rfl

theorem Confined.mono {moreErasable moreWritable : Set κ}
    (hconfined : Confined erasable writable store after) (herasable : erasable ⊆ moreErasable)
    (hwritable : writable ⊆ moreWritable) : Confined moreErasable moreWritable store after := by
  intro other hother
  rcases hconfined other (fun hmem => hother (hwritable hmem)) with hkept | ⟨hmem, hgone⟩
  · exact .inl hkept
  · exact .inr ⟨herasable hmem, hgone⟩

theorem Confined.held_eq {other : κ} (hconfined : Confined erasable writable store after)
    (herasable : other ∉ erasable) (hwritable : other ∉ writable) :
    after.held other = store.held other := by
  rcases hconfined other hwritable with hkept | ⟨hmem, _⟩
  · exact hkept
  · exact absurd hmem herasable

theorem Confined.held_eq_of_ne_none {other : κ} (hconfined : Confined erasable writable store after)
    (hheld : after.held other ≠ none) (hwritable : other ∉ writable) :
    after.held other = store.held other := by
  rcases hconfined other hwritable with hkept | ⟨_, hgone⟩
  · exact hkept
  · exact absurd hgone hheld

-- Erasing first and writing afterwards.
theorem Confined.then_writes {middle : FaultyStore κ β ε}
    (hconfined : Confined erasable ∅ store middle)
    (hsame : ∀ other ∉ writable, after.held other = middle.held other) :
    Confined erasable writable store after := by
  intro other hother
  rw [hsame other hother]
  exact hconfined other (Set.notMem_empty other)

-- With nothing erasable and nothing writable, a method only reads.
theorem confined_empty : Confined ∅ ∅ store after ↔ after.held = store.held := by
  constructor
  · intro hconfined
    funext other
    exact hconfined.held_eq (Set.notMem_empty other) (Set.notMem_empty other)
  · intro hheld other _
    exact .inl (congrFun hheld other)

theorem moves_attempt {operation : (κ → Option β) → α × (κ → Option β)}
    (hoperation : ∀ held, ∀ other ∉ writable, (operation held).2 other = held other ∨
      other ∈ erasable ∧ (operation held).2 other = none) :
    Method.Moves (Confined erasable writable)
      (attempt operation : EStateM ε (FaultyStore κ β ε) α) := by
  intro store other hother
  unfold attempt
  cases store.fault 0 with
  | none => exact hoperation store.held other hother
  | some fault => exact .inl rfl

theorem moves_fetch : Method.Moves (Confined erasable writable)
    (fetch key : EStateM ε (FaultyStore κ β ε) (Option β)) :=
  moves_attempt fun _ _ _ => .inl rfl

variable [DecidableEq κ]

theorem moves_put {value : β} (hkey : key ∈ writable) :
    Method.Moves (Confined erasable writable)
      (put key value : EStateM ε (FaultyStore κ β ε) Unit) := by
  apply moves_attempt
  intro held other hother
  exact .inl (Function.update_of_ne (ne_of_mem_of_not_mem hkey hother).symm _ _)

theorem moves_erase (hkey : key ∈ erasable ∨ key ∈ writable) :
    Method.Moves (Confined erasable writable)
      (erase key : EStateM ε (FaultyStore κ β ε) Unit) := by
  apply moves_attempt
  intro held other hother
  by_cases hother' : other = key
  · subst hother'
    exact .inr ⟨hkey.resolve_right hother, Function.update_self _ _ _⟩
  · exact .inl (Function.update_of_ne hother' _ _)

end Confinement

section Permission

-- What holds whatever fails: a key keeps its value, loses it, or gets one it may hold.
def Permitted (allowed : κ → β → Prop) (store after : FaultyStore κ β ε) : Prop :=
  ∀ key, after.held key = store.held key ∨
    ∀ value, after.held key = some value → allowed key value

variable {allowed : κ → β → Prop}

instance : Std.Refl (@Permitted κ β ε allowed) := ⟨fun _ _ => .inl rfl⟩

instance : IsTrans (FaultyStore κ β ε) (Permitted allowed) := by
  constructor
  intro store middle after hfirst hsecond key
  rcases hsecond key with hkept | hallowed
  · rw [hkept]
    exact hfirst key
  · exact .inr hallowed

theorem moves_permitted {operation : (κ → Option β) → α × (κ → Option β)}
    (hoperation : ∀ held other, (operation held).2 other = held other ∨
      ∀ value, (operation held).2 other = some value → allowed other value) :
    Method.Moves (Permitted allowed)
      (attempt operation : EStateM ε (FaultyStore κ β ε) α) := by
  intro store other
  unfold attempt
  cases store.fault 0 with
  | none => exact hoperation store.held other
  | some fault => exact .inl rfl

-- What every stored value is allowed to be, it stays.
theorem Permitted.holds (hpermitted : Permitted allowed store after)
    (hholds : ∀ key value, store.held key = some value → allowed key value) (key : κ) (value : β)
    (hvalue : after.held key = some value) : allowed key value := by
  rcases hpermitted key with hkept | hallowed
  · exact hholds key value (hkept.symm.trans hvalue)
  · exact hallowed value hvalue

-- A method that at most erases stores nothing that is not allowed.
theorem moves_permitted_of_confined {erasable : Set κ} {method : EStateM ε (FaultyStore κ β ε) α}
    (hmethod : Method.Moves (Confined erasable ∅) method) :
    Method.Moves (Permitted allowed) method := by
  intro store key
  rcases hmethod store key (Set.notMem_empty key) with hkept | ⟨_, hgone⟩
  · exact .inl hkept
  · exact .inr fun value hvalue => absurd (hgone.symm.trans hvalue) (by simp)

variable [DecidableEq κ]

theorem moves_permitted_put {value : β} (hallowed : allowed key value) :
    Method.Moves (Permitted allowed)
      (put key value : EStateM ε (FaultyStore κ β ε) Unit) := by
  apply moves_permitted
  intro held other
  by_cases hother : other = key
  · subst hother
    right
    intro found hfound
    simp only [Function.update_self, Option.some.injEq] at hfound
    exact hfound ▸ hallowed
  · exact .inl (Function.update_of_ne hother _ _)

theorem moves_permitted_erase : Method.Moves (Permitted allowed)
    (erase key : EStateM ε (FaultyStore κ β ε) Unit) := by
  apply moves_permitted
  intro held other
  by_cases hother : other = key
  · subst hother
    right
    intro found hfound
    simp only [Function.update_self] at hfound
    cases hfound
  · exact .inl (Function.update_of_ne hother _ _)

end Permission

section Erasure

variable {keys : Set κ}

-- Where nothing failed, every key of a set has lost its value, and no other key changed.
structure Erased (keys : Set κ) (store after : FaultyStore κ β ε) : Prop where
  gone : ∀ other ∈ keys, after.held other = none
  kept : ∀ other ∉ keys, after.held other = store.held other

theorem erased_empty (hheld : after.held = store.held) : Erased ∅ store after :=
  ⟨fun _ hmem => absurd hmem (Set.notMem_empty _), fun other _ => congrFun hheld other⟩

theorem Erased.trans {first second : Set κ} {middle : FaultyStore κ β ε}
    (hfirst : Erased first store middle) (hsecond : Erased second middle after) :
    Erased (first ∪ second) store after := by
  constructor
  · intro other hmem
    by_cases hother : other ∈ second
    · exact hsecond.gone other hother
    · rw [hsecond.kept other hother]
      exact hfirst.gone other (hmem.resolve_right hother)
  · intro other hmem
    obtain ⟨hleft, hright⟩ := not_or.1 hmem
    rw [hsecond.kept other hright, hfirst.kept other hleft]

theorem Erased.congr {others : Set κ} (herased : Erased keys store after)
    (hkeys : ∀ other, other ∈ others ↔ other ∈ keys) : Erased others store after := by
  constructor
  · intro other hmem
    exact herased.gone other ((hkeys other).1 hmem)
  · intro other hmem
    exact herased.kept other fun hother => hmem ((hkeys other).2 hother)

theorem erased_of_erase [DecidableEq κ] {result : Unit}
    (herase : erase key store = .ok result after) : Erased {key} store after := by
  obtain ⟨_, rfl⟩ := erase_eq_ok.1 herase
  constructor
  · intro other hmem
    rw [Set.mem_singleton_iff.1 hmem]
    exact Function.update_self _ _ _
  · intro other hmem
    exact Function.update_of_ne hmem _ _

end Erasure

section Working

variable {γ : Type}

-- Without faults the method answers, whatever is held.
def Works (method : EStateM ε (FaultyStore κ β ε) α) : Prop :=
  ∀ held, ∃ value kept, method ⟨held, []⟩ = .ok value ⟨kept, []⟩

theorem works_pure (value : α) : Works (pure value : EStateM ε (FaultyStore κ β ε) α) :=
  fun held => ⟨value, held, rfl⟩

theorem works_bind {method : EStateM ε (FaultyStore κ β ε) α}
    {rest : α → EStateM ε (FaultyStore κ β ε) γ} (hmethod : Works method)
    (hrest : ∀ value, Works (rest value)) : Works (method >>= rest) := by
  intro held
  obtain ⟨value, kept, hvalue⟩ := hmethod held
  obtain ⟨result, last, hresult⟩ := hrest value kept
  exact ⟨result, last, Method.bind_eq_ok.2 ⟨value, _, hvalue, hresult⟩⟩

theorem works_forM {items : List γ} {method : γ → EStateM ε (FaultyStore κ β ε) PUnit}
    (hmethod : ∀ item, Works (method item)) : Works (items.forM method) := by
  induction items with
  | nil => exact works_pure PUnit.unit
  | cons item items ih => exact works_bind (hmethod item) fun _ => ih

theorem works_put [DecidableEq κ] (key : κ) (value : β) :
    Works (put key value : EStateM ε (FaultyStore κ β ε) Unit) :=
  fun _ => ⟨(), _, put_eq_ok.2 ⟨rfl, rfl⟩⟩

theorem works_erase [DecidableEq κ] (key : κ) :
    Works (erase key : EStateM ε (FaultyStore κ β ε) Unit) :=
  fun _ => ⟨(), _, erase_eq_ok.2 ⟨rfl, rfl⟩⟩

theorem works_unwinding {cleanup : EStateM ε (FaultyStore κ β ε) Unit}
    {method : EStateM ε (FaultyStore κ β ε) α} (hmethod : Works method) :
    Works (Method.unwinding cleanup method) := by
  intro held
  obtain ⟨value, kept, hvalue⟩ := hmethod held
  exact ⟨value, kept, Method.unwinding_eq_ok.2 hvalue⟩

end Working

end FaultyStore
