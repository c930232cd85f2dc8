import Nymora.Lib.Runs
import Nymora.Protocol.Credential.Theorems

namespace Nymora.Protocol.Credential

open Nymora.Core
open Nymora.Crypto
open Nymora.Ports
open FaultyStore (Confined Erased)
open Method

-- What a member's device is asked to do for one agora.
inductive Request
  | create (keyStore : KeyStore) (entropy : CredentialEntropy) (publicKeySize bindingSize : Nat)
  | rollEpoch (keyStore : KeyStore) (current : Epoch) (epochSecret : FreshEntropy)
      (recordSize : Nat)
  | discardExpired (current : Epoch)

-- A request, and the faults its storage operations meet.
structure Call where
  request : Request
  faults : List (Option ProtocolError)

-- The epoch a request sweeps up to.
def Request.sweepsTo : Request → Option Epoch
  | .create _ _ _ _ => none
  | .rollEpoch _ current _ _ => some current
  | .discardExpired current => some current

variable [Primitives]

def Request.run (agora : AgoraId) : Request → Storing Unit
  | .create keyStore entropy publicKeySize bindingSize => do
      let _ ← Credential.create agora keyStore entropy publicKeySize bindingSize
      return ()
  | .rollEpoch keyStore current epochSecret recordSize =>
      Credential.rollEpoch agora keyStore current epochSecret recordSize
  | .discardExpired current => Credential.discardExpired agora current

def perform (agora : AgoraId) (contents : Contents) (call : Call) :
    Except ProtocolError Unit × Contents :=
  match call.request.run agora ⟨contents, call.faults⟩ with
  | .ok _ after => (.ok (), after.held)
  | .error refusal after => (.error refusal, after.held)

variable {agora : AgoraId} {contents : Contents} {call : Call}

theorem perform_snd : (perform agora contents call).2 =
    (left (call.request.run agora ⟨contents, call.faults⟩)).held := by
  unfold perform
  split
  · next result after hrun => rw [hrun]; rfl
  · next refusal after hrun => rw [hrun]; rfl

theorem exists_of_perform_ok (hok : (perform agora contents call).1 = .ok ()) :
    ∃ after, call.request.run agora ⟨contents, call.faults⟩ = .ok () after ∧
      (perform agora contents call).2 = after.held := by
  unfold perform at hok ⊢
  split at hok
  · next result after hrun =>
      rw [hrun]
      exact ⟨after, rfl, rfl⟩
  · cases hok

theorem perform_eq_of_ok (request : Request) {faults : List (Option ProtocolError)}
    {after : SecureStorage} (hrun : request.run agora ⟨contents, faults⟩ = .ok () after) :
    perform agora contents ⟨request, faults⟩ = (.ok (), after.held) := by
  unfold perform
  rw [hrun]

theorem perform_eq_of_error (request : Request) {faults : List (Option ProtocolError)}
    {refusal : ProtocolError} {after : SecureStorage}
    (hrun : request.run agora ⟨contents, faults⟩ = .error refusal after) :
    perform agora contents ⟨request, faults⟩ = (.error refusal, after.held) := by
  unfold perform
  rw [hrun]

theorem moves_run_create (agora : AgoraId) (keyStore : KeyStore) (entropy : CredentialEntropy)
    (publicKeySize bindingSize : Nat) : Moves (Confined ∅ (durable agora))
      (Request.run agora (.create keyStore entropy publicKeySize bindingSize)) :=
  moves_bind moves_create fun _ => moves_pure _

-- Whatever the faults, a request leaves the cursor empty or at an epoch.
theorem cursorReadable_perform (hreadable : CursorReadable agora contents) :
    CursorReadable agora (perform agora contents call).2 := by
  obtain ⟨cursor, hcursor⟩ := hreadable
  rw [perform_snd]
  obtain ⟨request, faults⟩ := call
  cases request with
  | create keyStore entropy publicKeySize bindingSize =>
      have hconfined := moves_run_create agora keyStore entropy publicKeySize bindingSize
        ⟨contents, faults⟩
      have hsame := hconfined.held_eq (Set.notMem_empty _) (durable_disjoint (.inr rfl))
      exact ⟨cursor, hsame.trans hcursor⟩
  | rollEpoch keyStore current epochSecret recordSize =>
      simp only [Request.run]
      cases hroll : Credential.rollEpoch agora keyStore current epochSecret recordSize
          ⟨contents, faults⟩ with
      | ok _ after =>
          obtain ⟨_, _, _, _, _, _, _, hheld⟩ := rollEpoch_ok hroll
          refine ⟨some current, ?_⟩
          unfold CursorIs left
          simp only [hheld, Function.update_self, Option.map_some]
      | error refusal after =>
          refine ⟨cursor, ?_⟩
          rcases rollEpoch_error hroll with hheld | ⟨_, _, _, hconfined⟩
          · exact (congrFun hheld _).trans hcursor
          · exact (hconfined.held_eq cursor_notMem_acting cursor_notMem_actingIn).trans hcursor
  | discardExpired current =>
      exact ⟨cursor, ((moves_discardExpired ⟨contents, faults⟩).held_eq cursor_notMem_acting
        (Set.notMem_empty _)).trans hcursor⟩

theorem cursorReadable_final (hreadable : CursorReadable agora contents) (calls : List Call) :
    CursorReadable agora (Runs.final (perform agora) contents calls) :=
  Runs.state_invariant hreadable (fun _ _ => cursorReadable_perform) calls

end Nymora.Protocol.Credential
