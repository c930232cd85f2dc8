import Nymora.Core.Digest
import Nymora.Core.Epoch
import Nymora.Core.Error
import Nymora.Lib.FaultyStore

namespace Nymora.Ports

open Nymora.Core

-- What a stored value is.
inductive Slot
  | CredentialKey | RootOpening | RootPublicKey
  | EpochKey (epoch : Epoch)
  | EpochCert (epoch : Epoch)
  | InboxKey | EpochCursor
  | TagKey (epoch : Epoch)
  | CachedRoot (policyClass : PolicyClass) (epoch : Epoch)
deriving DecidableEq

-- The epoch whose acting material a slot holds.
def Slot.actsIn : Slot → Option Epoch
  | .EpochKey epoch | .EpochCert epoch => some epoch
  | _ => none

theorem Slot.actsIn_eq_some {slot : Slot} {epoch : Epoch} :
    slot.actsIn = some epoch ↔ slot = .EpochKey epoch ∨ slot = .EpochCert epoch := by
  cases slot <;> simp [Slot.actsIn]

-- What a device holds, for every agora.
abbrev Contents := AgoraId × Slot → Option (List UInt8)

-- The port, with the faults its next operations meet.
abbrev SecureStorage := FaultyStore (AgoraId × Slot) (List UInt8) ProtocolError

abbrev Storing := EStateM ProtocolError SecureStorage

namespace SecureStorage

def store (agora : AgoraId) (slot : Slot) (value : List UInt8) : Storing Unit :=
  FaultyStore.put (agora, slot) value

-- Reads into a buffer of the given size; an empty slot is a value, not an error.
def load (agora : AgoraId) (slot : Slot) (size : Nat) : Storing (Option (List UInt8)) := do
  match ← FaultyStore.fetch (agora, slot) with
  | none => return none
  | some value =>
      Method.ensure (value.length ≤ size) .Malformed
      return some value

def delete (agora : AgoraId) (slot : Slot) : Storing Unit := FaultyStore.erase (agora, slot)

variable {agora : AgoraId} {slot : Slot} {storage after : SecureStorage}

theorem store_eq_ok {value : List UInt8} {result : Unit} :
    store agora slot value storage = .ok result after ↔ storage.fault 0 = none ∧
      after = storage.used (Function.update storage.held (agora, slot) (some value)) :=
  FaultyStore.put_eq_ok

theorem store_eq_error {value : List UInt8} {refusal : ProtocolError} :
    store agora slot value storage = .error refusal after ↔
      storage.fault 0 = some refusal ∧ after = storage.used storage.held :=
  FaultyStore.put_eq_error

theorem delete_eq_ok {result : Unit} :
    delete agora slot storage = .ok result after ↔ storage.fault 0 = none ∧
      after = storage.used (Function.update storage.held (agora, slot) none) :=
  FaultyStore.erase_eq_ok

theorem delete_eq_error {refusal : ProtocolError} :
    delete agora slot storage = .error refusal after ↔
      storage.fault 0 = some refusal ∧ after = storage.used storage.held :=
  FaultyStore.erase_eq_error

theorem load_eq_ok {size : Nat} {result : Option (List UInt8)} :
    load agora slot size storage = .ok result after ↔ storage.fault 0 = none ∧
      after = storage.used storage.held ∧ storage.held (agora, slot) = result ∧
        ∀ value, result = some value → value.length ≤ size := by
  unfold load
  rw [Method.bind_eq_ok]
  simp only [FaultyStore.fetch_eq_ok]
  constructor
  · rintro ⟨value, middle, ⟨hfault, rfl, rfl⟩, hvalue⟩
    cases hheld : storage.held (agora, slot) with
    | none =>
        rw [hheld, Method.pure_eq_ok] at hvalue
        obtain ⟨rfl, rfl⟩ := hvalue
        exact ⟨hfault, rfl, rfl, by simp⟩
    | some value =>
        rw [hheld, Method.ensure_bind_eq_ok, Method.pure_eq_ok] at hvalue
        obtain ⟨hlength, rfl, rfl⟩ := hvalue
        exact ⟨hfault, rfl, rfl, fun _ hsome => Option.some.inj hsome ▸ hlength⟩
  · rintro ⟨hfault, rfl, hresult, hlength⟩
    refine ⟨_, _, ⟨hfault, rfl, rfl⟩, ?_⟩
    cases hheld : storage.held (agora, slot) with
    | none => exact Method.pure_eq_ok.2 ⟨hresult.symm.trans hheld, rfl⟩
    | some value =>
        have hsome : result = some value := hresult.symm.trans hheld
        exact Method.ensure_bind_eq_ok.2
          ⟨hlength value hsome, Method.pure_eq_ok.2 ⟨hsome, rfl⟩⟩

theorem moves_load {erasable writable : Set (AgoraId × Slot)} (size : Nat) :
    Method.Moves (FaultyStore.Confined erasable writable) (load agora slot size) := by
  apply Method.moves_bind FaultyStore.moves_fetch
  intro value
  cases value with
  | none => exact Method.moves_pure _
  | some value => exact Method.moves_bind (Method.moves_ensure _ _) fun _ => Method.moves_pure _

end SecureStorage

end Nymora.Ports
