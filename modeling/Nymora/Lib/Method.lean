import Mathlib.Order.Defs.Unbundled

namespace Method

variable {ε ε' σ α β ι : Type}

-- A method reads and writes a state and either returns or refuses; whatever it wrote
-- before refusing stays written.

def ensure (condition : Prop) [Decidable condition] (refusal : ε) : EStateM ε σ Unit :=
  if condition then pure () else throw refusal

def expect (value : Option α) (refusal : ε) : EStateM ε σ α :=
  match value with
  | some value => pure value
  | none => throw refusal

-- A computation that touches no state.
def expectOk (result : Except ε α) : EStateM ε σ α :=
  match result with
  | .ok value => pure value
  | .error refusal => throw refusal

-- Runs an inner method, translating its refusals.
def translating (translate : ε → ε') (method : EStateM ε σ α) : EStateM ε' σ α := fun state =>
  match method state with
  | .ok value after => .ok value after
  | .error refusal after => .error (translate refusal) after

-- The state a method leaves, whether it returned or refused.
def left : EStateM.Result ε σ α → σ
  | .ok _ after => after
  | .error _ after => after

-- Runs a method for what it writes, whether or not it refuses.
def ignoring (method : EStateM ε σ α) : EStateM ε σ Unit := fun state =>
  .ok () (left (method state))

-- Runs a cleanup where a method refuses, before passing the refusal on.
def unwinding (cleanup : EStateM ε σ Unit) (method : EStateM ε σ α) : EStateM ε σ α := fun state =>
  match method state with
  | .ok value after => .ok value after
  | .error refusal middle => .error refusal (left (cleanup middle))

section Steps

variable (state : σ)

theorem throw_apply (refusal : ε) :
    (throw refusal : EStateM ε σ α) state = .error refusal state := rfl

theorem get_apply : (get : EStateM ε σ σ) state = .ok state state := rfl

theorem set_apply (next : σ) : (set next : EStateM ε σ PUnit) state = .ok ⟨⟩ next := rfl

theorem modify_apply (update : σ → σ) :
    (modify update : EStateM ε σ PUnit) state = .ok ⟨⟩ (update state) := rfl

end Steps

section Inversion

variable {state after : σ}

@[simp] theorem pure_eq_ok {value result : α} :
    (pure value : EStateM ε σ α) state = .ok result after ↔ result = value ∧ after = state := by
  simp [pure, EStateM.pure, eq_comm]

@[simp] theorem pure_eq_error {value : α} {refusal : ε} :
    ¬ (pure value : EStateM ε σ α) state = .error refusal after := by
  simp [pure, EStateM.pure]

@[simp] theorem throw_eq_ok {refusal : ε} {result : α} :
    ¬ (throw refusal : EStateM ε σ α) state = .ok result after := by
  simp [throw_apply]

@[simp] theorem throw_eq_error {refusal thrown : ε} :
    (throw refusal : EStateM ε σ α) state = .error thrown after ↔
      thrown = refusal ∧ after = state := by
  simp [throw_apply, eq_comm]

theorem bind_eq_ok {first : EStateM ε σ α} {rest : α → EStateM ε σ β} {result : β} :
    (first >>= rest) state = .ok result after ↔
      ∃ value middle, first state = .ok value middle ∧ rest value middle = .ok result after := by
  simp only [bind, EStateM.bind]
  cases first state with
  | ok value middle => grind
  | error refusal middle => simp

-- A method goes on past a first step that returned.
theorem exists_bind_eq_ok {first : EStateM ε σ α} {rest : α → EStateM ε σ β} {middle : σ}
    {result : β} (value : α) (hfirst : first state = .ok value middle)
    (hrest : ∃ after, rest value middle = .ok result after) :
    ∃ after, (first >>= rest) state = .ok result after := by
  obtain ⟨after, hrest⟩ := hrest
  exact ⟨after, bind_eq_ok.2 ⟨value, middle, hfirst, hrest⟩⟩

theorem bind_eq_error {first : EStateM ε σ α} {rest : α → EStateM ε σ β} {refusal : ε} :
    (first >>= rest) state = .error refusal after ↔
      first state = .error refusal after ∨
        ∃ value middle, first state = .ok value middle ∧
          rest value middle = .error refusal after := by
  simp only [bind, EStateM.bind]
  cases first state with
  | ok value middle => grind
  | error refusal middle => simp

@[simp] theorem get_eq_ok {result : σ} :
    (get : EStateM ε σ σ) state = .ok result after ↔ result = state ∧ after = state := by
  simp [get_apply, eq_comm]

@[simp] theorem get_eq_error {refusal : ε} :
    ¬ (get : EStateM ε σ σ) state = .error refusal after := by
  simp [get_apply]

@[simp] theorem set_eq_ok {next : σ} {result : PUnit} :
    (set next : EStateM ε σ PUnit) state = .ok result after ↔ after = next := by
  simp [set_apply, eq_comm]

@[simp] theorem set_eq_error {next : σ} {refusal : ε} :
    ¬ (set next : EStateM ε σ PUnit) state = .error refusal after := by
  simp [set_apply]

@[simp] theorem modify_eq_ok {update : σ → σ} {result : PUnit} :
    (modify update : EStateM ε σ PUnit) state = .ok result after ↔ after = update state := by
  simp [modify_apply, eq_comm]

@[simp] theorem modify_eq_error {update : σ → σ} {refusal : ε} :
    ¬ (modify update : EStateM ε σ PUnit) state = .error refusal after := by
  simp [modify_apply]

@[simp] theorem ensure_eq_ok {condition : Prop} [Decidable condition] {refusal : ε}
    {result : Unit} :
    ensure condition refusal state = .ok result after ↔ condition ∧ after = state := by
  by_cases hcondition : condition <;> simp [ensure, hcondition]

@[simp] theorem ensure_eq_error {condition : Prop} [Decidable condition] {refusal thrown : ε} :
    ensure condition refusal state = .error thrown after ↔
      ¬ condition ∧ thrown = refusal ∧ after = state := by
  by_cases hcondition : condition <;> simp [ensure, hcondition]

@[simp] theorem expect_eq_ok {value : Option α} {refusal : ε} {result : α} :
    expect value refusal state = .ok result after ↔ value = some result ∧ after = state := by
  cases value <;> simp [expect, eq_comm]

@[simp] theorem expect_eq_error {value : Option α} {refusal thrown : ε} :
    expect value refusal state = .error thrown after ↔
      value = none ∧ thrown = refusal ∧ after = state := by
  cases value <;> simp [expect]

@[simp] theorem expectOk_eq_ok {computed : Except ε α} {result : α} :
    (expectOk computed : EStateM ε σ α) state = .ok result after ↔
      computed = .ok result ∧ after = state := by
  cases computed <;> simp [expectOk, eq_comm]

@[simp] theorem expectOk_eq_error {computed : Except ε α} {refusal : ε} :
    (expectOk computed : EStateM ε σ α) state = .error refusal after ↔
      computed = .error refusal ∧ after = state := by
  cases computed <;> simp [expectOk, eq_comm]

@[simp] theorem translating_eq_ok {translate : ε → ε'} {method : EStateM ε σ α} {result : α} :
    translating translate method state = .ok result after ↔ method state = .ok result after := by
  unfold translating
  cases method state <;> simp

@[simp] theorem translating_eq_error {translate : ε → ε'} {method : EStateM ε σ α}
    {thrown : ε'} :
    translating translate method state = .error thrown after ↔
      ∃ refusal, method state = .error refusal after ∧ thrown = translate refusal := by
  unfold translating
  cases method state with
  | ok => simp
  | error refusal middle => grind

@[simp] theorem ignoring_eq_ok {method : EStateM ε σ α} {result : Unit} :
    ignoring method state = .ok result after ↔ after = left (method state) := by
  simp [ignoring, eq_comm]

@[simp] theorem ignoring_eq_error {method : EStateM ε σ α} {refusal : ε} :
    ¬ ignoring method state = .error refusal after := by
  simp [ignoring]

@[simp] theorem unwinding_eq_ok {cleanup : EStateM ε σ Unit} {method : EStateM ε σ α} {result : α} :
    unwinding cleanup method state = .ok result after ↔ method state = .ok result after := by
  unfold unwinding
  cases method state <;> simp

theorem unwinding_eq_error {cleanup : EStateM ε σ Unit} {method : EStateM ε σ α} {refusal : ε} :
    unwinding cleanup method state = .error refusal after ↔
      ∃ middle, method state = .error refusal middle ∧ after = left (cleanup middle) := by
  unfold unwinding
  cases method state with
  | ok value middle => simp
  | error thrown middle => simp [and_assoc, eq_comm]

-- A method past its first step, where that step reads, writes or checks.

theorem get_bind (rest : σ → EStateM ε σ α) :
    ((get : EStateM ε σ σ) >>= rest) state = rest state state := rfl

theorem set_bind (next : σ) (rest : PUnit → EStateM ε σ α) :
    ((set next : EStateM ε σ PUnit) >>= rest) state = rest ⟨⟩ next := rfl

theorem modify_bind (update : σ → σ) (rest : PUnit → EStateM ε σ α) :
    ((modify update : EStateM ε σ PUnit) >>= rest) state = rest ⟨⟩ (update state) := rfl

theorem ensure_bind_eq_ok {condition : Prop} [Decidable condition] {refusal : ε}
    {rest : Unit → EStateM ε σ α} {result : α} :
    (ensure condition refusal >>= rest) state = .ok result after ↔
      condition ∧ rest () state = .ok result after := by
  by_cases hcondition : condition
  · simp [ensure, hcondition]
  · simp [bind_eq_ok, hcondition]

theorem ensure_bind_eq_error {condition : Prop} [Decidable condition] {refusal thrown : ε}
    {rest : Unit → EStateM ε σ α} :
    (ensure condition refusal >>= rest) state = .error thrown after ↔
      ¬ condition ∧ thrown = refusal ∧ after = state ∨
        condition ∧ rest () state = .error thrown after := by
  by_cases hcondition : condition
  · simp [ensure, hcondition]
  · simp [bind_eq_error, hcondition]

theorem expect_bind_eq_ok {value : Option α} {refusal : ε} {rest : α → EStateM ε σ β}
    {result : β} :
    (expect value refusal >>= rest) state = .ok result after ↔
      ∃ expected, value = some expected ∧ rest expected state = .ok result after := by
  simp [bind_eq_ok, and_assoc]

theorem expect_bind_eq_error {value : Option α} {refusal thrown : ε}
    {rest : α → EStateM ε σ β} :
    (expect value refusal >>= rest) state = .error thrown after ↔
      value = none ∧ thrown = refusal ∧ after = state ∨
        ∃ expected, value = some expected ∧ rest expected state = .error thrown after := by
  simp [bind_eq_error, and_assoc]

theorem expectOk_bind_eq_ok {computed : Except ε α} {rest : α → EStateM ε σ β} {result : β} :
    (expectOk computed >>= rest) state = .ok result after ↔
      ∃ value, computed = .ok value ∧ rest value state = .ok result after := by
  simp [bind_eq_ok, and_assoc]

theorem expectOk_bind_eq_error {computed : Except ε α} {rest : α → EStateM ε σ β}
    {refusal : ε} :
    (expectOk computed >>= rest) state = .error refusal after ↔
      computed = .error refusal ∧ after = state ∨
        ∃ value, computed = .ok value ∧ rest value state = .error refusal after := by
  simp [bind_eq_error, and_assoc]

-- A method whose last step only wraps its result.
theorem bind_pure_eq_ok {method : EStateM ε σ α} {wrap : α → β} {result : β} :
    (method >>= fun value => pure (wrap value)) state = .ok result after ↔
      ∃ value, method state = .ok value after ∧ result = wrap value := by
  simp only [bind_eq_ok, pure_eq_ok]
  constructor
  · rintro ⟨value, middle, hmethod, hresult, rfl⟩
    exact ⟨value, hmethod, hresult⟩
  · rintro ⟨value, hmethod, hresult⟩
    exact ⟨value, after, hmethod, hresult, rfl⟩

theorem bind_pure_eq_error {method : EStateM ε σ α} {wrap : α → β} {refusal : ε} :
    (method >>= fun value => pure (wrap value)) state = .error refusal after ↔
      method state = .error refusal after := by
  simp only [bind_eq_error, pure_eq_error, and_false, exists_false, or_false]

theorem translating_bind_eq_ok {translate : ε → ε'} {method : EStateM ε σ α}
    {rest : α → EStateM ε' σ β} {result : β} :
    (translating translate method >>= rest) state = .ok result after ↔
      ∃ value middle, method state = .ok value middle ∧ rest value middle = .ok result after := by
  simp only [bind_eq_ok, translating_eq_ok]

theorem translating_bind_eq_error {translate : ε → ε'} {method : EStateM ε σ α}
    {rest : α → EStateM ε' σ β} {thrown : ε'} :
    (translating translate method >>= rest) state = .error thrown after ↔
      (∃ refusal, method state = .error refusal after ∧ thrown = translate refusal) ∨
        ∃ value middle, method state = .ok value middle ∧
          rest value middle = .error thrown after := by
  simp only [bind_eq_error, translating_eq_ok, translating_eq_error]

end Inversion

section Effects

-- However a method ends, the state it leaves stands in a relation to the one it found.
def Moves (relation : σ → σ → Prop) (method : EStateM ε σ α) : Prop :=
  ∀ state, relation state (left (method state))

variable {relation : σ → σ → Prop} {method : EStateM ε σ α} {state after : σ}

theorem Moves.of_ok {value : α} (hmoves : Moves relation method)
    (hok : method state = .ok value after) : relation state after := by
  have hleft := hmoves state
  rwa [hok] at hleft

theorem Moves.of_error {refusal : ε} (hmoves : Moves relation method)
    (herror : method state = .error refusal after) : relation state after := by
  have hleft := hmoves state
  rwa [herror] at hleft

theorem Moves.mono {wider : σ → σ → Prop} (hmoves : Moves relation method)
    (hwider : ∀ before next, relation before next → wider before next) : Moves wider method :=
  fun state => hwider _ _ (hmoves state)

theorem moves_pure [Std.Refl relation] (value : α) :
    Moves relation (pure value : EStateM ε σ α) := fun state => Std.Refl.refl state

theorem moves_expect [Std.Refl relation] (value : Option α) (refusal : ε) :
    Moves relation (expect value refusal : EStateM ε σ α) := by
  intro state
  cases value <;> exact Std.Refl.refl state

theorem moves_ensure [Std.Refl relation] (condition : Prop) [Decidable condition] (refusal : ε) :
    Moves relation (ensure condition refusal : EStateM ε σ Unit) := by
  intro state
  unfold ensure
  split <;> exact Std.Refl.refl state

theorem moves_expectOk [Std.Refl relation] (computed : Except ε α) :
    Moves relation (expectOk computed : EStateM ε σ α) := by
  intro state
  cases computed <;> exact Std.Refl.refl state

theorem moves_bind [IsTrans σ relation] {rest : α → EStateM ε σ β}
    (hmethod : Moves relation method) (hrest : ∀ value, Moves relation (rest value)) :
    Moves relation (method >>= rest) := by
  intro state
  have hfirst := hmethod state
  simp only [bind, EStateM.bind]
  cases hvalue : method state with
  | ok value middle =>
      rw [hvalue] at hfirst
      exact IsTrans.trans _ _ _ hfirst (hrest value middle)
  | error refusal middle =>
      rw [hvalue] at hfirst
      exact hfirst

theorem moves_expectOk_bind [Std.Refl relation] {computed : Except ε α}
    {rest : α → EStateM ε σ β} (hrest : ∀ value, computed = .ok value → Moves relation (rest value)) :
    Moves relation (expectOk computed >>= rest) := by
  intro state
  cases computed with
  | error refusal => exact Std.Refl.refl state
  | ok value => exact hrest value rfl state

theorem moves_expect_bind [Std.Refl relation] {value : Option α} {refusal : ε}
    {rest : α → EStateM ε σ β}
    (hrest : ∀ expected, value = some expected → Moves relation (rest expected)) :
    Moves relation (expect value refusal >>= rest) := by
  intro state
  cases value with
  | none => exact Std.Refl.refl state
  | some expected => exact hrest expected rfl state

theorem moves_ignoring (hmethod : Moves relation method) : Moves relation (ignoring method) := by
  intro state
  exact hmethod state

theorem moves_unwinding [IsTrans σ relation] {cleanup : EStateM ε σ Unit}
    (hcleanup : Moves relation cleanup) (hmethod : Moves relation method) :
    Moves relation (unwinding cleanup method) := by
  intro state
  have hfirst := hmethod state
  unfold unwinding
  cases hvalue : method state with
  | ok value middle =>
      rw [hvalue] at hfirst
      exact hfirst
  | error refusal middle =>
      rw [hvalue] at hfirst
      exact IsTrans.trans _ _ _ hfirst (hcleanup middle)

theorem moves_forM [Std.Refl relation] [IsTrans σ relation] {body : ι → EStateM ε σ PUnit}
    {items : List ι} (hbody : ∀ item ∈ items, Moves relation (body item)) :
    Moves relation (forM items body) := by
  induction items with
  | nil => exact moves_pure PUnit.unit
  | cons item items ih =>
      rw [List.forM_cons]
      apply moves_bind (hbody item List.mem_cons_self)
      intro _
      apply ih
      intro later hlater
      exact hbody later (List.mem_cons_of_mem _ hlater)

end Effects

section Stateless

theorem except_bind_eq_ok {first : Except ε α} {rest : α → Except ε β} {result : β} :
    (first >>= rest) = .ok result ↔ ∃ value, first = .ok value ∧ rest value = .ok result := by
  cases first with
  | ok value => simp [bind, Except.bind]
  | error refusal => simp [bind, Except.bind]

@[simp] theorem except_pure_eq_ok {value result : α} :
    (pure value : Except ε α) = .ok result ↔ result = value := by
  simp [pure, Except.pure, eq_comm]

@[simp] theorem except_throw_eq_ok {refusal : ε} {result : α} :
    ¬ (throw refusal : Except ε α) = .ok result := by
  simp [throw, throwThe, MonadExceptOf.throw]

@[simp] theorem except_elim_eq_ok {value : Option α} {refusal : ε} {result : α} :
    (value.elim (throw refusal) pure : Except ε α) = .ok result ↔ value = some result := by
  cases value with
  | none => simp
  | some value => rw [Option.elim_some, except_pure_eq_ok, Option.some_inj, eq_comm]

theorem except_forM_eq_ok {body : ι → Except ε Unit} {items : List ι} {result : Unit} :
    forM items body = .ok result ↔ ∀ item ∈ items, body item = .ok () := by
  induction items with
  | nil => simp
  | cons item items ih =>
      rw [List.forM_cons, except_bind_eq_ok]
      constructor
      · rintro ⟨⟨⟩, hitem, hrest⟩
        exact List.forall_mem_cons.2 ⟨hitem, ih.1 hrest⟩
      · intro hall
        obtain ⟨hitem, hrest⟩ := List.forall_mem_cons.1 hall
        exact ⟨⟨⟩, hitem, ih.2 hrest⟩

-- An invariant of the items folded so far and the value they led to.
theorem except_foldlM_invariant {motive : List ι → β → Prop} {body : β → ι → Except ε β}
    {items : List ι} {value result : β} (hfold : items.foldlM body value = .ok result)
    (hstart : motive [] value)
    (hstep : ∀ done item current next, body current item = .ok next → motive done current →
      motive (done ++ [item]) next) : motive items result := by
  have hgeneral : ∀ (rest done : List ι) (current : β), rest.foldlM body current = .ok result →
      motive done current → motive (done ++ rest) result := by
    intro rest
    induction rest with
    | nil =>
        intro done current hrest hcurrent
        rw [List.foldlM_nil, except_pure_eq_ok] at hrest
        rw [hrest, List.append_nil]
        exact hcurrent
    | cons item rest ih =>
        intro done current hrest hcurrent
        rw [List.foldlM_cons, except_bind_eq_ok] at hrest
        obtain ⟨next, hitem, hrest⟩ := hrest
        have hnext := ih (done ++ [item]) next hrest (hstep done item current next hitem hcurrent)
        rwa [List.append_assoc] at hnext
  exact hgeneral items [] value hfold hstart

end Stateless

-- The states a loop over a list passes through when no iteration refuses.
inductive Loop (step : ι → σ → σ → Prop) : List ι → σ → σ → Prop
  | nil (state : σ) : Loop step [] state state
  | cons {item : ι} {items : List ι} {state middle after : σ} (hstep : step item state middle)
      (hrest : Loop step items middle after) : Loop step (item :: items) state after

namespace Loop

variable {step : ι → σ → σ → Prop} {items : List ι} {state after : σ}

@[simp] theorem nil_iff : Loop step [] state after ↔ after = state :=
  ⟨fun hloop => by cases hloop; rfl, fun heq => by subst heq; exact .nil _⟩

theorem cons_iff {item : ι} : Loop step (item :: items) state after ↔
    ∃ middle, step item state middle ∧ Loop step items middle after :=
  ⟨fun hloop => by cases hloop with | cons hstep hrest => exact ⟨_, hstep, hrest⟩,
    fun ⟨_, hstep, hrest⟩ => .cons hstep hrest⟩

-- A field every iteration leaves alone, the loop leaves alone.
theorem frame {field : σ → α} (hloop : Loop step items state after)
    (hframe : ∀ item before next, step item before next → field next = field before) :
    field after = field state := by
  induction hloop with
  | nil => rfl
  | cons hstep _ ih => exact ih.trans (hframe _ _ _ hstep)

end Loop

theorem forM_eq_ok {body : ι → EStateM ε σ PUnit} {items : List ι} {state after : σ}
    {result : PUnit} :
    forM items body state = .ok result after ↔
      Loop (fun item before next => body item before = .ok ⟨⟩ next) items state after := by
  induction items generalizing state with
  | nil => simp
  | cons item items ih =>
      rw [List.forM_cons, bind_eq_ok, Loop.cons_iff]
      constructor
      · rintro ⟨⟨⟩, middle, hbody, hrest⟩
        exact ⟨middle, hbody, ih.1 hrest⟩
      · rintro ⟨middle, hbody, hrest⟩
        exact ⟨⟨⟩, middle, hbody, ih.2 hrest⟩

end Method
