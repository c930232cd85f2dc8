import Nymora.Protocol.Operator.Boundary.Theorems
import Nymora.Protocol.Operator.Inbox

namespace Nymora.Protocol.Operator.AgoraState

open Nymora.Core
open Nymora.Circuits
open Nymora.Proofs
open Method

variable {depth : Nat} {state after : AgoraState depth} {system : ProofSystem depth}
  {leaf : Commitment} {inbox : InboxPublicKey} {proof : system.InboxProof}

-- A leaf that has landed in some class.
def Landed (state : AgoraState depth) (leaf : Commitment) : Prop :=
  ∃ (policyClass : PolicyClass) (entry : ClassState depth),
    state.classes[policyClass]? = some entry ∧ leaf ∈ entry.positions

theorem landed_iff_any : Landed state leaf ↔
    (state.classes.toList.any fun entry => decide (leaf ∈ entry.2.positions)) = true := by
  simp only [Landed, List.any_eq_true, decide_eq_true_eq, Prod.exists,
    Std.ExtTreeMap.mem_toList_iff_getElem?_eq_some]

theorem landed_iff_mem_keys : Landed state leaf ↔
    leaf ∈ state.classes.toList.flatMap fun entry => entry.2.positions.keys := by
  simp only [Landed, List.mem_flatMap, Prod.exists, Std.ExtTreeMap.mem_keys,
    Std.ExtTreeMap.mem_toList_iff_getElem?_eq_some]

theorem inboxCertificate_retire_eq_ok {result : Recorded} :
    inboxCertificate system leaf inbox .Retire proof state = .ok result after ↔
      state.dissolved = false ∧ verifyInbox system proof state.agora leaf inbox .Retire ∧
        (∃ record, state.inboxes[leaf]? = some record ∧ record.key = inbox) ∧
        after = { state with inboxes := state.inboxes.erase leaf } := by
  simp only [inboxCertificate, checkLive_bind_eq_ok, translating_bind_eq_ok, get_bind,
    ensure_bind_eq_ok, expect_bind_eq_ok, set_eq_ok, pure_eq_ok, true_and]
  constructor
  · rintro ⟨hlive, _, _, ⟨haccepted, record, hrecord, hkey, rfl⟩, hafter⟩
    exact ⟨hlive, haccepted, ⟨record, hrecord, hkey⟩, hafter⟩
  · rintro ⟨hlive, haccepted, ⟨record, hrecord, hkey⟩, hafter⟩
    exact ⟨hlive, ⟨⟩, _, ⟨haccepted, record, hrecord, hkey, rfl⟩, hafter⟩

theorem inboxCertificate_renew_eq_ok {result : Recorded} :
    inboxCertificate system leaf inbox .Renew proof state = .ok result after ↔
      state.dissolved = false ∧ verifyInbox system proof state.agora leaf inbox .Renew ∧
        Landed state leaf ∧ leaf ∉ state.revokedLeaves ∧
        after = { state with inboxes := state.inboxes.insert leaf ⟨inbox, state.epoch⟩ } := by
  simp only [inboxCertificate, checkLive_bind_eq_ok, translating_bind_eq_ok, get_bind,
    ensure_bind_eq_ok, set_eq_ok, pure_eq_ok, true_and, landed_iff_any]
  constructor
  · rintro ⟨hlive, _, _, ⟨haccepted, ⟨hlanded, hunrevoked⟩, rfl⟩, hafter⟩
    exact ⟨hlive, haccepted, hlanded, hunrevoked, hafter⟩
  · rintro ⟨hlive, haccepted, hlanded, hunrevoked, hafter⟩
    exact ⟨hlive, ⟨⟩, _, ⟨haccepted, ⟨hlanded, hunrevoked⟩, rfl⟩, hafter⟩

theorem inboxCertificate_eq_error {action : InboxAction} {refusal : ProtocolError}
    (herror : inboxCertificate system leaf inbox action proof state = .error refusal after) :
    after = state := by
  cases action with
  | Retire =>
      simp only [inboxCertificate, checkLive_bind_eq_error, translating_bind_eq_error, get_bind,
        ensure_bind_eq_error, expect_bind_eq_error, set_eq_error, pure_eq_error, and_false,
        exists_false, or_false] at herror
      grind
  | Renew =>
      simp only [inboxCertificate, checkLive_bind_eq_error, translating_bind_eq_error, get_bind,
        ensure_bind_eq_error, set_eq_error, pure_eq_error, and_false, exists_false,
        or_false] at herror
      grind

end Nymora.Protocol.Operator.AgoraState
