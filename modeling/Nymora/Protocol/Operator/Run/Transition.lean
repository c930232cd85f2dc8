import Nymora.Protocol.Operator.Access.Theorems
import Nymora.Protocol.Operator.Inbox.Theorems
import Nymora.Protocol.Operator.Migrate.Theorems
import Nymora.Protocol.Operator.Quorum.Theorems
import Nymora.Protocol.Operator.Run

namespace Nymora.Protocol.Operator.AgoraState

open Nymora.Core
open Nymora.Crypto
open Nymora.Circuits
open Nymora.Proofs
open Method

variable {depth : Nat} [Primitives] {system : ProofSystem depth} {state after : AgoraState depth}

-- Everything one call can do to a provisioned agora: its answer, what it wrote, and the
-- checks it passed. A refusal that writes has its own case.
inductive Transition (system : ProofSystem depth) (state : AgoraState depth) :
    Call system → Outcome → AgoraState depth → Prop
  | refused {call : Call system} {refusal : ProtocolError} :
      Transition system state call (.error refusal) state
  | credentialsInit {commitment : Commitment} {inbox : InboxPublicKey}
      (hlive : state.dissolved = false) :
      Transition system state (.credentialsInit commitment inbox) (.ok .recorded) { state with
        pending := state.pending.insert commitment
        stagedInboxes := state.stagedInboxes.insert commitment inbox }
  | startVouch {candidate : Commitment} {target : PolicyClass} {idEntropy : Bytes 32}
      {entry : ClassState depth} (hlive : state.dissolved = false)
      (hpending : candidate ∈ state.pending) (hentry : state.classes[target]? = some entry)
      (hunlanded : candidate ∉ entry.positions) (hroom : state.remainingCapacity target ≠ 0) :
      Transition system state (.startVouch candidate target idEntropy)
        (.ok (.session (.fromBytes idEntropy)))
        (state.withSession (.fromBytes idEntropy) ⟨candidate, target, ∅⟩)
  | vouchAttest {session : SessionId} {proof : system.Proof} {nullifier : Nullifier}
      {opened : VouchSession} {entry : ClassState depth} {roots : EpochRoots}
      (hlive : state.dissolved = false) (hopened : state.sessions[session]? = some opened)
      (hentry : state.classes[opened.target]? = some entry)
      (hroots : state.rootsIn state.epoch entry.policy.voucherClass = .ok roots)
      (hproof : verifyVouch system proof state.agora state.epoch roots session.asBytes.toList
        nullifier)
      (hfresh : nullifier ∉ opened.nullifiers) :
      Transition system state (.vouchAttest session proof nullifier) (.ok .recorded)
        (state.withSession session
          { opened with nullifiers := opened.nullifiers.insert nullifier })
  | vouchFinalize {session : SessionId} {opened : VouchSession} {entry : ClassState depth}
      {admission : Admission} (hlive : state.dissolved = false)
      (hopened : state.sessions[session]? = some opened)
      (hmet : entry.policy.admissionThreshold.toNat ≤ opened.nullifiers.size)
      (hstageable : Stageable state opened.target opened.candidate entry)
      (hnext : state.epoch.next = some admission.activeFrom)
      (hposition : admission.position = state.promised opened.target entry) :
      Transition system state (.vouchFinalize session) (.ok (.admission admission))
        ((state.closeSession session opened.candidate).stage opened.target opened.candidate)
  | finalizeClosed {session : SessionId} {refusal : ProtocolError} :
      Transition system state (.vouchFinalize session) (.error refusal)
        { state with sessions := state.sessions.erase session }
  | finalizeConsumed {session : SessionId} {candidate : Commitment} {refusal : ProtocolError} :
      Transition system state (.vouchFinalize session) (.error refusal)
        (state.closeSession session candidate)
  | finalizeLost {session : SessionId} {opened : VouchSession} {entry : ClassState depth}
      {refusal : ProtocolError} (hnext : state.epoch.next = none)
      (hstageable : Stageable state opened.target opened.candidate entry) :
      Transition system state (.vouchFinalize session) (.error refusal)
        ((state.closeSession session opened.candidate).stage opened.target opened.candidate)
  | migrate {policyClass : PolicyClass} {proof : system.MigrationProof} {spend : Nullifier}
      {successor : Commitment} {inbox : InboxPublicKey} {admission : Admission}
      {entry : ClassState depth} {roots : EpochRoots} (hlive : state.dissolved = false)
      (hmigratable : Migratable system state policyClass proof spend successor roots)
      (hstageable : Stageable state policyClass successor entry)
      (hnext : state.epoch.next = some admission.activeFrom)
      (hposition : admission.position = state.promised policyClass entry) :
      Transition system state (.migrate policyClass proof spend successor inbox)
        (.ok (.admission admission)) (state.stageMigration policyClass spend successor inbox)
  | migrateLost {policyClass : PolicyClass} {proof : system.MigrationProof} {spend : Nullifier}
      {successor : Commitment} {inbox : InboxPublicKey} {entry : ClassState depth}
      {refusal : ProtocolError} (hnext : state.epoch.next = none)
      (hstageable : Stageable state policyClass successor entry) :
      Transition system state (.migrate policyClass proof spend successor inbox) (.error refusal)
        (state.stage policyClass successor)
  | retire {leaf : Commitment} {inbox : InboxPublicKey} {proof : system.InboxProof}
      {record : InboxRecord} (hlive : state.dissolved = false)
      (haccepted : verifyInbox system proof state.agora leaf inbox .Retire)
      (hrecord : state.inboxes[leaf]? = some record) (hkey : record.key = inbox) :
      Transition system state (.inboxCertificate leaf inbox .Retire proof) (.ok .recorded)
        { state with inboxes := state.inboxes.erase leaf }
  | renew {leaf : Commitment} {inbox : InboxPublicKey} {proof : system.InboxProof}
      (hlive : state.dissolved = false)
      (haccepted : verifyInbox system proof state.agora leaf inbox .Renew)
      (hlanded : Landed state leaf) (hunrevoked : leaf ∉ state.revokedLeaves) :
      Transition system state (.inboxCertificate leaf inbox .Renew proof) (.ok .recorded)
        { state with inboxes := state.inboxes.insert leaf ⟨inbox, state.epoch⟩ }
  | propose {decision : Decision} {approvingClass : PolicyClass} {nonceEntropy : Bytes 32}
      {subject : SubjectId} (hlive : state.dissolved = false)
      (happroving : approvingClass ∈ state.classes) (hproposable : Proposable state decision)
      (hsubject : subject =
        subjectId state.agora state.epoch approvingClass decision nonceEntropy) :
      Transition system state (.propose decision approvingClass nonceEntropy)
        (.ok (.subject subject))
        (state.withProposal subject
          ⟨decision, approvingClass, state.epoch, nonceEntropy, ∅⟩)
  | approve {subject : SubjectId} {proof : system.Proof} {nullifier : Nullifier}
      {proposal : Proposal} {roots : EpochRoots} (hlive : state.dissolved = false)
      (hraised : state.proposals[subject]? = some proposal)
      (hroots : state.rootsIn state.epoch proposal.approvingClass = .ok roots)
      (hproof : verifyPolicyApproval system proof state.agora state.epoch roots
        subject.asBytes.toList nullifier)
      (hfresh : nullifier ∉ proposal.approvals) :
      Transition system state (.approve subject proof nullifier) (.ok .recorded)
        (state.withProposal subject
          { proposal with approvals := proposal.approvals.insert nullifier })
  | execute {subject : SubjectId} {proposal : Proposal} {executed : Executed}
      {after : AgoraState depth} (hcarried : Carried state subject proposal)
      (heffect : Effect (state.consume subject) proposal.decision executed after) :
      Transition system state (.execute subject) (.ok (.executed executed)) after
  | executeConsumed {subject : SubjectId} {refusal : ProtocolError} :
      Transition system state (.execute subject) (.error refusal) (state.consume subject)
  | executeLost {subject : SubjectId} {refusal : ProtocolError}
      (hnext : state.epoch.next = none) :
      Transition system state (.execute subject) (.error refusal) (state.consume subject).unstage
  | issueChallenge {entropy : Bytes 32} (hlive : state.dissolved = false) :
      Transition system state (.issueChallenge entropy) (.ok (.challenge ⟨entropy⟩))
        { state with challenges := state.challenges.insert entropy }
  | redeemAccess {policyClass : PolicyClass} {proof : system.Proof} {challenge : Challenge}
      {roots : EpochRoots} (hlive : state.dissolved = false)
      (hissued : challenge.asBytes ∈ state.challenges)
      (hroots : state.rootsIn state.epoch policyClass = .ok roots)
      (hproof : verifyVerificationAccess system proof state.agora state.epoch roots
        challenge.asBytes.toList) :
      Transition system state (.redeemAccess policyClass proof challenge)
        (.ok (.access ⟨state.epoch⟩)) (state.present challenge)
  | redeemConsumed {policyClass : PolicyClass} {proof : system.Proof} {challenge : Challenge}
      {refusal : ProtocolError} :
      Transition system state (.redeemAccess policyClass proof challenge) (.error refusal)
        (state.present challenge)
  | advanceEpoch {next : Epoch} {after : AgoraState depth} (hlive : state.dissolved = false)
      (hboundary : Boundary next state after) :
      Transition system state .advanceEpoch (.ok (.envelope after.envelopeNow)) after
  | advanceLost {refusal : ProtocolError} (hnext : state.epoch.next = none) :
      Transition system state .advanceEpoch (.error refusal) state.unstage
  | currentEnvelope (hlive : state.dissolved = false) :
      Transition system state .currentEnvelope (.ok (.envelope state.envelopeNow)) state

section Perform

variable {call : Call system}

theorem transition_of_ok {reply : Reply} (hcall : perform system call state = .ok reply after) :
    Transition system state call (.ok reply) after := by
  cases call with
  | credentialsInit commitment inbox =>
      rw [perform, bind_pure_eq_ok] at hcall
      obtain ⟨_, hmethod, rfl⟩ := hcall
      obtain ⟨hlive, rfl⟩ := credentialsInit_eq_ok.1 hmethod
      exact .credentialsInit hlive
  | startVouch candidate target idEntropy =>
      rw [perform, bind_pure_eq_ok] at hcall
      obtain ⟨_, hmethod, rfl⟩ := hcall
      obtain ⟨hlive, hpending, ⟨entry, hentry, hunlanded⟩, hroom, rfl, rfl⟩ :=
        startVouch_eq_ok.1 hmethod
      exact .startVouch hlive hpending hentry hunlanded hroom
  | vouchAttest session proof nullifier =>
      rw [perform, bind_pure_eq_ok] at hcall
      obtain ⟨_, hmethod, rfl⟩ := hcall
      obtain ⟨hlive, opened, entry, roots, hopened, hentry, hroots, hproof, hfresh, rfl⟩ :=
        vouchAttest_eq_ok.1 hmethod
      exact .vouchAttest hlive hopened hentry hroots hproof hfresh
  | vouchFinalize session =>
      rw [perform, bind_pure_eq_ok] at hcall
      obtain ⟨admission, hmethod, rfl⟩ := hcall
      obtain ⟨hlive, opened, entry, hopened, hmet, hstageable, hnext, hposition, rfl⟩ :=
        vouchFinalize_eq_ok.1 hmethod
      exact .vouchFinalize hlive hopened hmet hstageable hnext hposition
  | migrate policyClass proof spend successor inbox =>
      rw [perform, bind_pure_eq_ok] at hcall
      obtain ⟨admission, hmethod, rfl⟩ := hcall
      obtain ⟨hlive, entry, roots, hmigratable, hstageable, hnext, hposition, rfl⟩ :=
        migrate_eq_ok.1 hmethod
      exact .migrate hlive hmigratable hstageable hnext hposition
  | inboxCertificate leaf inbox action proof =>
      rw [perform, bind_pure_eq_ok] at hcall
      obtain ⟨_, hmethod, rfl⟩ := hcall
      cases action with
      | Retire =>
          obtain ⟨hlive, haccepted, ⟨record, hrecord, hkey⟩, rfl⟩ :=
            inboxCertificate_retire_eq_ok.1 hmethod
          exact .retire hlive haccepted hrecord hkey
      | Renew =>
          obtain ⟨hlive, haccepted, hlanded, hunrevoked, rfl⟩ :=
            inboxCertificate_renew_eq_ok.1 hmethod
          exact .renew hlive haccepted hlanded hunrevoked
  | propose decision approvingClass nonceEntropy =>
      rw [perform, bind_pure_eq_ok] at hcall
      obtain ⟨subject, hmethod, rfl⟩ := hcall
      obtain ⟨hlive, happroving, hproposable, hsubject, rfl⟩ := propose_eq_ok.1 hmethod
      exact .propose hlive happroving hproposable hsubject
  | approve subject proof nullifier =>
      rw [perform, bind_pure_eq_ok] at hcall
      obtain ⟨_, hmethod, rfl⟩ := hcall
      obtain ⟨hlive, proposal, roots, hraised, hroots, hproof, hfresh, rfl⟩ :=
        approve_eq_ok.1 hmethod
      exact .approve hlive hraised hroots hproof hfresh
  | execute subject =>
      rw [perform, bind_pure_eq_ok] at hcall
      obtain ⟨executed, hmethod, rfl⟩ := hcall
      obtain ⟨proposal, hcarried, heffect⟩ := effect_of_execute hmethod
      exact .execute hcarried heffect
  | issueChallenge entropy =>
      rw [perform, bind_pure_eq_ok] at hcall
      obtain ⟨_, hmethod, rfl⟩ := hcall
      obtain ⟨hlive, rfl, rfl⟩ := issueChallenge_eq_ok.1 hmethod
      exact .issueChallenge hlive
  | redeemAccess policyClass proof challenge =>
      rw [perform, bind_pure_eq_ok] at hcall
      obtain ⟨_, hmethod, rfl⟩ := hcall
      obtain ⟨hlive, hissued, ⟨roots, hroots, hproof⟩, rfl, rfl⟩ := redeemAccess_eq_ok.1 hmethod
      exact .redeemAccess hlive hissued hroots hproof
  | advanceEpoch =>
      rw [perform, bind_pure_eq_ok] at hcall
      obtain ⟨envelope, hmethod, rfl⟩ := hcall
      obtain ⟨hlive, ⟨next, hboundary⟩, rfl⟩ := boundary_of_advanceEpoch hmethod
      exact .advanceEpoch hlive hboundary
  | currentEnvelope =>
      rw [perform, bind_pure_eq_ok] at hcall
      obtain ⟨_, hmethod, rfl⟩ := hcall
      simp only [currentEnvelope, checkLive_bind_eq_ok, get_bind, pure_eq_ok] at hmethod
      obtain ⟨hlive, rfl, rfl⟩ := hmethod
      exact .currentEnvelope hlive

theorem transition_of_error {refusal : ProtocolError} (hprovisioned : state.Provisioned)
    (hcall : perform system call state = .error refusal after) :
    Transition system state call (.error refusal) after := by
  cases call with
  | credentialsInit commitment inbox =>
      rw [perform, bind_pure_eq_error] at hcall
      rw [credentialsInit_eq_error hcall]
      exact .refused
  | startVouch candidate target idEntropy =>
      rw [perform, bind_pure_eq_error] at hcall
      rw [startVouch_eq_error hcall]
      exact .refused
  | vouchAttest session proof nullifier =>
      rw [perform, bind_pure_eq_error] at hcall
      rw [vouchAttest_eq_error hcall]
      exact .refused
  | vouchFinalize session =>
      rw [perform, bind_pure_eq_error] at hcall
      rcases vouchFinalize_eq_error hcall with ⟨_, rfl⟩ | ⟨opened, _, hopened,
        ⟨_, rfl⟩ | ⟨_, _, rfl⟩ | ⟨_, hnext, ⟨entry, hstageable⟩, rfl⟩⟩
      · exact .refused
      · exact .finalizeClosed
      · exact .finalizeConsumed
      · exact .finalizeLost hnext hstageable
  | migrate policyClass proof spend successor inbox =>
      rw [perform, bind_pure_eq_error] at hcall
      rcases migrate_eq_error hcall with ⟨rfl, _⟩ | ⟨_, hnext, _, ⟨entry, hstageable⟩, rfl⟩
      · exact .refused
      · exact .migrateLost hnext hstageable
  | inboxCertificate leaf inbox action proof =>
      rw [perform, bind_pure_eq_error] at hcall
      rw [inboxCertificate_eq_error hcall]
      exact .refused
  | propose decision approvingClass nonceEntropy =>
      rw [perform, bind_pure_eq_error] at hcall
      rw [propose_eq_error hcall]
      exact .refused
  | approve subject proof nullifier =>
      rw [perform, bind_pure_eq_error] at hcall
      rw [approve_eq_error hcall]
      exact .refused
  | execute subject =>
      rw [perform, bind_pure_eq_error] at hcall
      rcases execute_eq_error hprovisioned hcall with
        ⟨_, rfl⟩ | ⟨proposal, hcarried, ⟨_, rfl⟩ | ⟨_, hnext, rfl⟩⟩
      · exact .refused
      · exact .executeConsumed
      · exact .executeLost hnext
  | issueChallenge entropy =>
      rw [perform, bind_pure_eq_error] at hcall
      rw [issueChallenge_eq_error hcall]
      exact .refused
  | redeemAccess policyClass proof challenge =>
      rw [perform, bind_pure_eq_error] at hcall
      rcases redeemAccess_eq_error hcall with rfl | rfl
      · exact .refused
      · exact .redeemConsumed
  | advanceEpoch =>
      rw [perform, bind_pure_eq_error] at hcall
      rcases advanceEpoch_eq_error hprovisioned hcall with ⟨_, rfl⟩ | ⟨_, hnext, rfl⟩
      · exact .refused
      · exact .advanceLost hnext
  | currentEnvelope =>
      rw [perform, bind_pure_eq_error] at hcall
      simp only [currentEnvelope, checkLive_bind_eq_error, get_bind, pure_eq_error, and_false,
        or_false] at hcall
      obtain ⟨_, _, rfl⟩ := hcall
      exact .refused

theorem step_eq_ok {reply : Reply} :
    step system state call = (.ok reply, after) ↔
      perform system call state = .ok reply after := by
  unfold step
  cases perform system call state with
  | ok given reached => simp
  | error refusal reached => simp

theorem step_eq_error {refusal : ProtocolError} :
    step system state call = (.error refusal, after) ↔
      perform system call state = .error refusal after := by
  unfold step
  cases perform system call state with
  | ok reply reached => simp
  | error thrown reached => simp

-- Every call of a provisioned agora is one of the transitions.
theorem transition_of_step (hprovisioned : state.Provisioned) (call : Call system) :
    Transition system state call (step system state call).1 (step system state call).2 := by
  unfold step
  cases hcall : perform system call state with
  | ok reply after => exact transition_of_ok hcall
  | error refusal after => exact transition_of_error hprovisioned hcall

end Perform

end Nymora.Protocol.Operator.AgoraState
