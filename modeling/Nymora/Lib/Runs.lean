import Mathlib.Data.List.Induction

namespace Runs

variable {σ ι ο : Type}

-- One call of a deterministic machine: the states around it and what it answered.
structure Event (σ ι ο : Type) where
  before : σ
  call : ι
  outcome : ο
  after : σ

variable (step : σ → ι → ο × σ)

def event (state : σ) (call : ι) : Event σ ι ο :=
  ⟨state, call, (step state call).1, (step state call).2⟩

def final (state : σ) (calls : List ι) : σ :=
  calls.foldl (fun current call => (step current call).2) state

-- Everything that happened in a run, in order.
def events : σ → List ι → List (Event σ ι ο)
  | _, [] => []
  | state, call :: calls => event step state call :: events (step state call).2 calls

@[simp] theorem final_nil (state : σ) : final step state [] = state := rfl

@[simp] theorem final_cons (state : σ) (call : ι) (calls : List ι) :
    final step state (call :: calls) = final step (step state call).2 calls := rfl

@[simp] theorem events_nil (state : σ) : events step state [] = [] := rfl

@[simp] theorem events_cons (state : σ) (call : ι) (calls : List ι) :
    events step state (call :: calls) =
      event step state call :: events step (step state call).2 calls := rfl

theorem final_append (state : σ) (first second : List ι) :
    final step state (first ++ second) = final step (final step state first) second := by
  simp [final]

theorem final_concat (state : σ) (calls : List ι) (call : ι) :
    final step state (calls ++ [call]) = (step (final step state calls) call).2 := by
  simp [final]

theorem events_append (state : σ) (first second : List ι) :
    events step state (first ++ second) =
      events step state first ++ events step (final step state first) second := by
  induction first generalizing state with
  | nil => rfl
  | cons call first ih => simp [ih]

theorem events_concat (state : σ) (calls : List ι) (call : ι) :
    events step state (calls ++ [call]) =
      events step state calls ++ [event step (final step state calls) call] := by
  simp [events_append]

variable {step} {state : σ}

theorem state_invariant {property : σ → Prop} (hstart : property state)
    (hstep : ∀ current call, property current → property (step current call).2)
    (calls : List ι) : property (final step state calls) := by
  induction calls using List.reverseRecOn with
  | nil => exact hstart
  | append_singleton calls call ih =>
      rw [final_concat]
      exact hstep _ _ ih

-- What the steps that meet a guard preserve holds before every event of a run whose events all
-- meet it.
theorem guarded_invariant {guard : Event σ ι ο → Prop} {property : σ → Prop}
    (hstart : property state)
    (hstep : ∀ current call, guard (event step current call) → property current →
      property (step current call).2) {calls : List ι}
    (hguard : ∀ happened ∈ events step state calls, guard happened) {happened : Event σ ι ο}
    (hmem : happened ∈ events step state calls) : property happened.before := by
  induction calls generalizing state with
  | nil => cases hmem
  | cons call calls ih =>
      obtain ⟨hcall, hrest⟩ := List.forall_mem_cons.1 hguard
      rcases List.mem_cons.1 hmem with rfl | hmem
      · exact hstart
      · exact ih (hstep state call hcall hstart) hrest hmem

theorem guarded_final {guard : Event σ ι ο → Prop} {property : σ → Prop} (hstart : property state)
    (hstep : ∀ current call, guard (event step current call) → property current →
      property (step current call).2) {calls : List ι}
    (hguard : ∀ happened ∈ events step state calls, guard happened) :
    property (final step state calls) := by
  induction calls generalizing state with
  | nil => exact hstart
  | cons call calls ih =>
      obtain ⟨hcall, hrest⟩ := List.forall_mem_cons.1 hguard
      exact ih (hstep state call hcall hstart) hrest

-- Two machines that answer related states alike and keep them related answer a run alike.
theorem simulates {τ κ : Type} {other : τ → κ → ο × τ} {encode : ι → κ} {related : σ → τ → Prop}
    (hstep : ∀ current current' call, related current current' →
      (step current call).1 = (other current' (encode call)).1 ∧
        related (step current call).2 (other current' (encode call)).2)
    {state' : τ} (hstart : related state state') (calls : List ι) :
    (events step state calls).map Event.outcome =
        (events other state' (calls.map encode)).map Event.outcome ∧
      related (final step state calls) (final other state' (calls.map encode)) := by
  induction calls generalizing state state' with
  | nil => exact ⟨rfl, hstart⟩
  | cons call calls ih =>
      obtain ⟨houtcome, hnext⟩ := hstep state state' call hstart
      obtain ⟨houtcomes, hfinal⟩ := ih hnext
      refine ⟨?_, hfinal⟩
      rw [List.map_cons, events_cons, events_cons, List.map_cons, List.map_cons, houtcomes]
      exact congrArg (· :: _) houtcome

-- Every event of a run is one call made on the state its predecessors led to.
theorem mem_events {calls : List ι} {happened : Event σ ι ο}
    (hmem : happened ∈ events step state calls) :
    ∃ earlier call later, calls = earlier ++ call :: later ∧
      happened = event step (final step state earlier) call := by
  induction calls generalizing state with
  | nil => cases hmem
  | cons call calls ih =>
      rcases List.mem_cons.1 hmem with rfl | hmem
      · exact ⟨[], call, calls, rfl, rfl⟩
      · obtain ⟨earlier, later, rest, hcalls, hhappened⟩ := ih hmem
        exact ⟨call :: earlier, later, rest, by rw [hcalls]; rfl, hhappened⟩

-- A split of a run's events is a split of its calls.
theorem events_eq_append {calls : List ι} {first second : List (Event σ ι ο)}
    (hevents : events step state calls = first ++ second) :
    ∃ earlier later, calls = earlier ++ later ∧ events step state earlier = first ∧
      events step (final step state earlier) later = second := by
  induction first generalizing state calls with
  | nil => exact ⟨[], calls, rfl, rfl, hevents⟩
  | cons happened first ih =>
      cases calls with
      | nil => cases hevents
      | cons call calls =>
          obtain ⟨hhead, htail⟩ := List.cons.inj hevents
          obtain ⟨earlier, later, hcalls, hfirst, hsecond⟩ := ih htail
          refine ⟨call :: earlier, later, by rw [hcalls]; rfl, ?_, hsecond⟩
          rw [events_cons, hhead, hfirst]

end Runs
