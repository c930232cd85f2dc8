import Nymora.Protocol.Decision.Theorems
import Nymora.Protocol.Operator.Run.Governance

namespace Nymora.Protocol.Operator.AgoraState

open Nymora.Core
open Nymora.Crypto
open Nymora.Circuits
open Nymora.Proofs

variable {depth : Nat} {system : ProofSystem depth} {history : History system}

variable [Primitives]

-- Every approval an open proposal counts was given for its own subject, which names its content.
theorem Governed.counted {state : AgoraState depth} (hgoverned : Governed history state)
    {subject : SubjectId} {proposal : Proposal}
    (hopen : state.proposals[subject]? = some proposal) :
    subject = subjectId state.agora state.epoch proposal.approvingClass proposal.decision
        proposal.nonce ∧
      ∀ nullifier ∈ proposal.approvals, ∃ event ∈ history,
        Approves event state.agora state.epoch subject proposal.approvingClass nullifier := by
  obtain ⟨earlier, raising, later, rfl, hraised⟩ := hgoverned.proposals subject proposal hopen
  refine ⟨hraised.proposes.2.2.2, ?_⟩
  intro nullifier hcounted
  obtain ⟨event, hevent, happroves⟩ := hraised.approved nullifier hcounted
  exact ⟨event, List.mem_append_right _ (List.mem_cons_of_mem _ hevent), happroves⟩

-- A subject binds the whole decision, and in every run what a proposal counts was approved for
-- that decision and no other.
theorem subject_binds_the_decision {founding : Founding} {tagSecret statementEntropy : Bytes 32}
    {logSeed : Option (Bytes 32)} {created state : AgoraState depth}
    (hcreate : create founding tagSecret statementEntropy logSeed = .ok created)
    (hexecution : Execution system created history state) :
    (∀ (agora other : AgoraId) (opened later : Epoch) (approvingClass otherClass : PolicyClass)
      (decision otherDecision : Decision) (nonce otherNonce : Bytes 32),
      ByteHasher.CollisionFree [subjectStream agora opened approvingClass decision nonce,
        subjectStream other later otherClass otherDecision otherNonce] →
      subjectId agora opened approvingClass decision nonce =
        subjectId other later otherClass otherDecision otherNonce →
      agora = other ∧ opened = later ∧ approvingClass = otherClass ∧ decision = otherDecision ∧
        nonce = otherNonce) ∧
    ∀ (subject : SubjectId) (proposal : Proposal), state.proposals[subject]? = some proposal →
      ∀ nullifier ∈ proposal.approvals, ∃ event ∈ history, ∃ proof,
        event.call = .approve subject proof nullifier ∧ event.outcome = .ok .recorded ∧
        ∀ (agora : AgoraId) (opened : Epoch) (approvingClass : PolicyClass) (decision : Decision)
          (nonce : Bytes 32),
          ByteHasher.CollisionFree [subjectStream agora opened approvingClass decision nonce,
            subjectStream state.agora state.epoch proposal.approvingClass proposal.decision
              proposal.nonce] →
          event.call = .approve (subjectId agora opened approvingClass decision nonce) proof
            nullifier →
          agora = state.agora ∧ opened = state.epoch ∧ approvingClass = proposal.approvingClass ∧
            decision = proposal.decision ∧ nonce = proposal.nonce := by
  refine ⟨fun _ _ _ _ _ _ _ _ _ _ hfree hsubject => subjectId_inj hfree hsubject, ?_⟩
  intro subject proposal hopen nullifier hcounted
  have hgoverned := hexecution.governed (fresh_of_create hcreate)
  obtain ⟨hcontent, hcounts⟩ := hgoverned.counted hopen
  obtain ⟨event, hevent, _, houtcome, proof, _, hcall, _, _⟩ := hcounts nullifier hcounted
  refine ⟨event, hevent, proof, hcall, houtcome, ?_⟩
  intro agora opened approvingClass decision nonce hfree happrove
  have hsame : subject = subjectId agora opened approvingClass decision nonce := by
    rw [hcall] at happrove
    injection happrove
  exact subjectId_inj hfree (hsame.symm.trans hcontent)

end Nymora.Protocol.Operator.AgoraState

namespace Nymora.Protocol.Operator.AgoraState.Sample

open Nymora.Core
open Nymora.Crypto
open scoped Nymora.Crypto.Reference

-- A revocation's content is the start of a policy change's.
def changing : Decision := .Policy (.fromBytes founder.asBytes) 0 0

theorem lapsing_open :
    (reached (accepting 2) start governing).proposals[lapsingSubject]?.isSome := by decide +kernel

theorem subject_binds_the_decision_counted :
    subjectId founding.agora founding.genesis members (.Revocation founder) entropy ≠
      subjectId founding.agora founding.genesis members changing entropy ∧
    ∃ event ∈ played (accepting 2) start governing, ∃ proof,
      event.call = .approve lapsingSubject proof nullifier := by
  obtain ⟨hbinds, hcounts⟩ := subject_binds_the_decision create_start (execution_played governing)
  constructor
  · intro hsubject
    obtain ⟨_, _, _, hdecision, _⟩ := hbinds _ _ _ _ _ _ _ _ _ _ (by decide +kernel) hsubject
    exact absurd hdecision (by decide)
  · obtain ⟨event, hevent, proof, hcall, _⟩ := hcounts lapsingSubject _
      (Option.some_get lapsing_open).symm nullifier (by decide +kernel)
    exact ⟨event, hevent, proof, hcall⟩

end Nymora.Protocol.Operator.AgoraState.Sample
