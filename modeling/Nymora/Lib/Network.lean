import Nymora.Lib.Runs
import Mathlib.Logic.Function.Basic

-- One server and its clients. The server takes calls, and whoever schedules the network delivers
-- any message to any client at any time: late, twice, out of order, or made up.
namespace Network

open Runs

variable {σ ι ο μ ν ω ρ : Type}

structure World (σ μ ρ : Type) where
  server : σ
  clients : ρ → μ

inductive Move (ι ν ρ : Type)
  | call (request : ι)
  | deliver (client : ρ) (message : ν)

inductive Answer (ο ω : Type)
  | call (outcome : ο)
  | deliver (outcome : ω)

section Steps

variable [DecidableEq ρ] (serve : σ → ι → ο × σ) (take : μ → ν → ω × μ)

def step (world : World σ μ ρ) : Move ι ν ρ → Answer ο ω × World σ μ ρ
  | .call request =>
      (.call (serve world.server request).1, { world with server := (serve world.server request).2 })
  | .deliver client message =>
      (.deliver (take (world.clients client) message).1,
        { world with
          clients := Function.update world.clients client (take (world.clients client) message).2 })

end Steps

def Move.call? : Move ι ν ρ → Option ι
  | .call request => some request
  | .deliver _ _ => none

-- What the server is asked in a run, in order.
def calls (moves : List (Move ι ν ρ)) : List ι := moves.filterMap Move.call?

theorem calls_call (moves : List (Move ι ν ρ)) (request : ι) :
    calls (moves ++ [.call request]) = calls moves ++ [request] := by
  simp [calls, Move.call?]

theorem calls_deliver (moves : List (Move ι ν ρ)) (client : ρ) (message : ν) :
    calls (moves ++ [.deliver client message]) = calls moves := by
  simp [calls, Move.call?]

variable [DecidableEq ρ] {serve : σ → ι → ο × σ} {take : μ → ν → ω × μ} {world : World σ μ ρ}

-- Deliveries are nothing to the server.
theorem server_final (moves : List (Move ι ν ρ)) :
    (final (step serve take) world moves).server = final serve world.server (calls moves) := by
  induction moves using List.reverseRecOn with
  | nil => rfl
  | append_singleton moves move ih =>
      rw [final_concat]
      cases move with
      | call request => rw [calls_call, final_concat, ← ih]; rfl
      | deliver client message => rw [calls_deliver, ← ih]; rfl

-- What a client may know of the server's past, which more past does not take away, and which a
-- delivery keeps: every client of every run knows it of the run's own past. The deliveries are
-- judged by what the server had done when they arrived.
theorem clients_follow {motive : ρ → List (Event σ ι ο) → μ → Prop} {moves : List (Move ι ν ρ)}
    (hstart : ∀ client, motive client [] (world.clients client))
    (hkeeps : ∀ client past later kept, motive client past kept →
      motive client (past ++ later) kept)
    (htake : ∀ earlier client message later, moves = earlier ++ .deliver client message :: later →
      motive client (events serve world.server (calls earlier))
        ((final (step serve take) world earlier).clients client) →
      motive client (events serve world.server (calls earlier))
        (take ((final (step serve take) world earlier).clients client) message).2) :
    ∀ client, motive client (events serve world.server (calls moves))
      ((final (step serve take) world moves).clients client) := by
  induction moves using List.reverseRecOn with
  | nil => exact hstart
  | append_singleton moves move ih =>
      have hearlier := ih fun earlier client message later hsplit =>
        htake earlier client message (later ++ [move]) (by rw [hsplit]; simp)
      intro client
      rw [final_concat]
      cases move with
      | call request =>
          rw [calls_call, events_append]
          exact hkeeps client _ _ _ (hearlier client)
      | deliver addressed message =>
          rw [calls_deliver]
          have htaken := htake moves addressed message [] rfl (hearlier addressed)
          by_cases heq : client = addressed
          · subst heq
            simpa [step] using htaken
          · simpa [step, heq] using hearlier client

end Network
