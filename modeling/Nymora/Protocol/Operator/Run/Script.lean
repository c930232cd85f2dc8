import Nymora.Crypto.Reference
import Nymora.Protocol.Operator.Run.Invariants

namespace Nymora.Protocol.Operator.AgoraState

open Nymora.Core
open Nymora.Crypto
open Nymora.Circuits
open Method

variable {depth : Nat}

-- The system that accepts every proof: over it a run shows what proofs do not prevent.
def accepting (depth : Nat) : ProofSystem depth where
  Proof := Unit
  MigrationProof := Unit
  InboxProof := Unit
  prove _ _ := .ok ()
  verify _ _ := true
  proveMigration _ _ := .ok ()
  verifyMigration _ _ := true
  proveInbox _ _ := .ok ()
  verifyInbox _ _ := true

section Script

variable [Primitives] {system : ProofSystem depth} {start : AgoraState depth}

-- The history and the state that a script of calls leads to.
def played (system : ProofSystem depth) (start : AgoraState depth) (calls : List (Call system)) :
    History system := Runs.events (step system) start calls

def reached (system : ProofSystem depth) (start : AgoraState depth) (calls : List (Call system)) :
    AgoraState depth := Runs.final (step system) start calls

-- What one call of a script does after the calls before it.
def playing (system : ProofSystem depth) (start : AgoraState depth) (calls : List (Call system))
    (call : Call system) : Runs.Event (AgoraState depth) (Call system) Outcome :=
  Runs.event (step system) (reached system start calls) call

theorem execution_played (calls : List (Call system)) :
    Execution system start (played system start calls) (reached system start calls) :=
  ⟨calls, rfl, rfl⟩

theorem played_split (earlier : List (Call system)) (call : Call system)
    (later : List (Call system)) : played system start (earlier ++ call :: later) =
      played system start earlier ++ playing system start earlier call ::
        played system (reached system start (earlier ++ [call])) later := by
  unfold played playing reached
  rw [Runs.events_append, Runs.events_cons, Runs.final_concat]

theorem reached_concat (calls : List (Call system)) (call : Call system) :
    reached system start (calls ++ [call]) = (playing system start calls call).after :=
  Runs.final_concat _ _ _ _

theorem call_of_mem_played {calls : List (Call system)}
    {event : Runs.Event (AgoraState depth) (Call system) Outcome}
    (hevent : event ∈ played system start calls) : event.call ∈ calls := by
  obtain ⟨earlier, call, later, rfl, rfl⟩ := Runs.mem_events hevent
  exact List.mem_append_right _ List.mem_cons_self

-- A live agora re-serves its current envelope.
theorem step_currentEnvelope (hlive : start.dissolved = false) :
    step system start .currentEnvelope = (.ok (.envelope start.envelopeNow), start) := by
  have hserved : perform system .currentEnvelope start =
      .ok (.envelope start.envelopeNow) start := by
    simp only [perform, bind_pure_eq_ok, currentEnvelope, checkLive_bind_eq_ok, get_bind,
      pure_eq_ok]
    exact ⟨start.envelopeNow, ⟨hlive, rfl, trivial⟩, rfl⟩
  unfold step
  rw [hserved]

-- What a script does with an envelope to re-serve.
theorem played_currentEnvelope (hlive : start.dissolved = false) (calls : List (Call system)) :
    played system start (.currentEnvelope :: calls) =
      playing system start [] .currentEnvelope :: played system start calls := by
  unfold played
  rw [Runs.events_cons, step_currentEnvelope hlive]
  rfl

end Script

theorem eq_ok_get {refusals results : Type} {result : Except refusals results}
    (hok : result.toOption.isSome) : result = .ok (result.toOption.get hok) := by
  cases result with
  | ok value => rfl
  | error refusal => cases hok

-- A small agora to run scripts on: the members, the founder among them, vouch into two classes.
namespace Sample

open scoped Nymora.Crypto.Reference

def members : PolicyClass := .fromBytes (Bytes.replicate 32 1)

def guests : PolicyClass := .fromBytes (Bytes.replicate 32 9)

def founder : Commitment := .fromBytes (Bytes.replicate 32 2)

def candidate : Commitment := .fromBytes (Bytes.replicate 32 3)

def inboxSecret : InboxSecretKey := .new (Inbox.mintInboxSecret (Bytes.replicate 32 4))

def address : InboxPublicKey := Inbox.inboxPublicKey inboxSecret

def otherAddress : InboxPublicKey := .fromBytes (Bytes.replicate 32 5)

def founding : Founding where
  agora := .fromBytes (Bytes.replicate 32 6)
  genesis := ⟨0, by decide⟩
  founder := founder
  classes := [(members, ⟨members, 1⟩), (guests, ⟨members, 1⟩)]
  founderClasses := [members]
  founderInbox := address

def entropy : Bytes 32 := Bytes.replicate 32 7

def session : SessionId := .fromBytes entropy

def nullifier : Nullifier := .fromBytes (Bytes.replicate 32 8)

theorem founds :
    (create founding entropy entropy none : Except _ (AgoraState 2)).toOption.isSome := by
  decide +kernel

def start : AgoraState 2 := (create founding entropy entropy none).toOption.get founds

theorem create_start : create founding entropy entropy none = .ok start := eq_ok_get founds

theorem start_live : start.dissolved = false := by decide +kernel

end Sample

end Nymora.Protocol.Operator.AgoraState
