import Nymora.Protocol.Operator.Query
import Nymora.Protocol.Operator.Run.Chronicle
import Nymora.Protocol.Operator.Run.Governance
import Nymora.Protocol.Operator.Run.Script

namespace Nymora.Protocol.Operator.AgoraState

open Nymora.Core
open Nymora.Crypto
open Nymora.Circuits
open Method

variable {depth : Nat} {system : ProofSystem depth} [Primitives]
  {before after created start state : AgoraState depth} {history : History system}

-- After a dissolution every call is refused and writes nothing, the gate is shut for all access,
-- a read discloses nothing, and the log ends with its only freeze.
structure Absorbed (dissolving : Event system) (state : AgoraState depth)
    (query : Query system) : Prop where
  refuses : ∀ call : Call system, step system state call = (.error .Rejected, state)
  kept : state = dissolving.after
  bars : ∀ access, Bars system state access
  withholds : (ask system state query).discloses = false
  frozen : ∀ log, state.log = some log → ∃ earlier,
    log.entries = earlier ++ [.Frozen dissolving.before.epoch] ∧
      ∀ entry ∈ earlier, entry.isFrozen = false

omit [Primitives] in
-- A method that checks liveness first refuses.
theorem checkLive_bind_refused {result : Type} (hdissolved : state.dissolved = true)
    (rest : Unit → EStateM ProtocolError (AgoraState depth) result) :
    (checkLive >>= rest) state = .error .Rejected state :=
  bind_eq_error.2 (Or.inl (checkLive_eq_error.2 ⟨hdissolved, rfl, rfl⟩))

theorem perform_of_dissolved (hdissolved : state.dissolved = true) (call : Call system) :
    perform system call state = .error .Rejected state := by
  cases call with
  | _ => exact bind_eq_error.2 (Or.inl (checkLive_bind_refused hdissolved _))

theorem step_of_dissolved (hdissolved : state.dissolved = true) (call : Call system) :
    step system state call = (.error .Rejected, state) :=
  step_eq_error.2 (perform_of_dissolved hdissolved call)

theorem Execution.kept_of_dissolved (hexecution : Execution system start history state)
    (hdissolved : start.dissolved = true) : state = start := by
  obtain ⟨calls, rfl, rfl⟩ := hexecution
  induction calls with
  | nil => rfl
  | cons call calls ih =>
      rw [Runs.final_cons, step_of_dissolved hdissolved]
      exact ih

theorem Transition.dissolves {call : Call system} {outcome : Outcome} {subject : SubjectId}
    (htransition : Transition system before call outcome after)
    (hexecutes : Executes (⟨before, call, outcome, after⟩ : Event system) subject .Dissolved) :
    after = (before.consume subject).dissolve := by
  obtain ⟨hcall, houtcome⟩ := hexecutes
  cases htransition with
  | @execute _ proposal _ _ _ heffect =>
      cases hcall
      generalize proposal.decision = decision at heffect
      cases heffect with
      | dissolution => rfl
      | _ => cases houtcome
  | refused => cases houtcome
  | executeConsumed => cases houtcome
  | executeLost => cases houtcome
  | _ => cases hcall

omit [Primitives] in
theorem answered_of_error {result : Type} {reply : result → Answer}
    {method : EStateM ProtocolError (AgoraState depth) result} {refusal : ProtocolError}
    (herror : method state = .error refusal after) :
    answered reply method state = .refused refusal := by
  unfold answered
  rw [herror]

-- The two reads that derive from the secrets without asking whether the agora lives.
theorem withholds_iff (hdissolved : state.dissolved = true) (query : Query system) :
    (ask system state query).discloses = false ↔
      query ≠ .statementKey ∧ query ≠ .fetchKeyNow := by
  have hbars : ∀ access, Bars system state access := fun access => bars_iff.2 (Or.inl hdissolved)
  cases query with
  | statementKey => simp [ask, Answer.discloses]
  | fetchKeyNow => simp [ask, Answer.discloses]
  | currentEnvelope =>
      simp [ask, answered_of_error (checkLive_bind_refused hdissolved _), currentEnvelope,
        Answer.discloses]
  | currentBody =>
      simp [ask, answered_of_error (checkLive_bind_refused hdissolved _), currentBody,
        Answer.discloses]
  | rootsAt access policyClass epoch =>
      obtain ⟨refusal, hrefused⟩ := (hbars access).roots policyClass epoch
      simp [ask, answered_of_error hrefused, Answer.discloses]
  | tagKeyAt access epoch =>
      obtain ⟨refusal, hrefused⟩ := (hbars access).tagKey epoch
      simp [ask, answered_of_error hrefused, Answer.discloses]
  | revocationKeys access =>
      obtain ⟨refusal, hrefused⟩ := (hbars access).revocations
      simp [ask, answered_of_error hrefused, Answer.discloses]
  | spendKeys access =>
      obtain ⟨refusal, hrefused⟩ := (hbars access).spends
      simp [ask, answered_of_error hrefused, Answer.discloses]
  | verifyAttestation access policyClass epoch proof message nullifier =>
      obtain ⟨refusal, hrefused⟩ :=
        (hbars access).attestation policyClass epoch proof message nullifier
      simp [ask, answered_of_error hrefused, Answer.discloses]
  | _ => simp [ask, Answer.discloses]

-- A dissolution ends an agora for good, short of the two reads that still derive a key from the
-- zeroed secrets.
theorem dissolution_is_absorbing {founding : Founding} {tagSecret statementEntropy : Bytes 32}
    {logSeed : Option (Bytes 32)} {earlier later : History system} {dissolving : Event system}
    {subject : SubjectId}
    (hcreate : create founding tagSecret statementEntropy logSeed = .ok created)
    (hexecution : Execution system created (earlier ++ dissolving :: later) state)
    (hexecutes : Executes dissolving subject .Dissolved) (query : Query system) :
    Absorbed dissolving state query ↔ query ≠ .statementKey ∧ query ≠ .fetchKeyNow := by
  have hsound := (fresh_of_create hcreate).sound
  obtain ⟨_, _, htransition, _, hlater⟩ := hexecution.at_event hsound
  have hafter := htransition.dissolves hexecutes
  have hfrozen : dissolving.after.dissolved = true := by
    rw [hafter]
    rfl
  have hkept := hlater.kept_of_dissolved hfrozen
  have hdissolved : state.dissolved = true := by
    rw [hkept]
    exact hfrozen
  constructor
  · intro habsorbed
    exact (withholds_iff hdissolved query).1 habsorbed.withholds
  · intro hquery
    refine ⟨step_of_dissolved hdissolved, hkept, fun access => bars_iff.2 (Or.inl hdissolved),
      (withholds_iff hdissolved query).2 hquery, ?_⟩
    intro log hlog
    have hchronicle := hexecution.chronicled hsound (chronicled_of_create hcreate) log hlog
    obtain ⟨entries, hentries, hunfrozen⟩ := hchronicle.closing
    have hepoch : state.epoch = dissolving.before.epoch := by
      rw [hkept, hafter]
      rfl
    rw [hdissolved, if_pos rfl, hepoch] at hentries
    exact ⟨entries, hentries, hunfrozen⟩

end Nymora.Protocol.Operator.AgoraState

namespace Nymora.Protocol.Operator.AgoraState.Sample

open Nymora.Core
open Nymora.Crypto
open scoped Nymora.Crypto.Reference

def dissolvingSubject : SubjectId :=
  subjectId founding.agora founding.genesis members .Dissolution entropy

def winding : List (Call (accepting 2)) :=
  [.propose .Dissolution members entropy, .approve dissolvingSubject () nullifier]

-- The founder alone dissolves the agora.
def dissolving : Event (accepting 2) := playing (accepting 2) start winding (.execute dissolvingSubject)

theorem dissolving_executes : Executes dissolving dissolvingSubject .Dissolved :=
  ⟨rfl, by decide +kernel⟩

theorem execution_dissolving :
    Execution (accepting 2) start (played (accepting 2) start winding ++ [dissolving])
      dissolving.after := by
  refine ⟨winding ++ [.execute dissolvingSubject], ?_, ?_⟩
  · exact (played_split winding (.execute dissolvingSubject) []).symm
  · exact (reached_concat winding (.execute dissolvingSubject)).symm

theorem dissolution_is_absorbing_body :
    Absorbed dissolving dissolving.after (.currentBody : Query (accepting 2)) ↔
      (.currentBody : Query (accepting 2)) ≠ .statementKey ∧
        (.currentBody : Query (accepting 2)) ≠ .fetchKeyNow :=
  dissolution_is_absorbing create_start execution_dissolving dissolving_executes .currentBody

-- The fetch key and the statement key are still derived, from the zeroes that are left.
theorem dissolved_agora_hands_out_keys :
    Executes dissolving dissolvingSubject .Dissolved ∧
      ¬ Absorbed dissolving dissolving.after (.fetchKeyNow : Query (accepting 2)) ∧
      ¬ Absorbed dissolving dissolving.after (.statementKey : Query (accepting 2)) := by
  refine ⟨⟨rfl, by decide +kernel⟩, ?_, ?_⟩
  · intro habsorbed
    exact Bool.noConfusion habsorbed.withholds
  · intro habsorbed
    exact Bool.noConfusion habsorbed.withholds

end Nymora.Protocol.Operator.AgoraState.Sample
