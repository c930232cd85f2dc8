import Nymora.Protocol.Operator.Run.Chronicle
import Nymora.Protocol.Operator.Run.Script

namespace Nymora.Protocol.Operator.AgoraState

open Nymora.Core
open Nymora.Crypto
open Nymora.Circuits
open Std (ExtTreeMap ExtTreeSet)

variable {depth : Nat} {system : ProofSystem depth} [Primitives]
  {created state : AgoraState depth} {history : History system} {log : TransparencyLog}

-- A log that passes both audits and tells, epoch by epoch, what the history records.
structure Honest (genesis : Epoch) (state : AgoraState depth) (log : TransparencyLog) : Prop where
  verified : verifyLog log.entries log.heads log.publicKey.toList = true
  conforming : conforms log.entries = true
  sequences : log.heads.map SignedHead.sequence = List.range log.entries.length
  dated : ∀ entry ∈ log.entries,
    genesis.get ≤ entry.epoch.get ∧ entry.epoch.get ≤ state.epoch.get
  chapters : ∀ epoch : Epoch, genesis.get ≤ epoch.get → epoch.get ≤ state.epoch.get →
    ∃ (snapshot : Snapshot) (changes : List LogEntry),
      state.history[epoch.get]? = some snapshot ∧
      (∀ policyClass, policyClass ∈ snapshot.classRoots ↔ policyClass ∈ state.classes) ∧
      snapshot.classRoots.toList.Pairwise (fun lower higher => compare lower.1 higher.1 = .lt) ∧
      Chapter snapshot epoch (state.dissolved && state.epoch == epoch) changes
        (entriesOf epoch log.entries)
  -- A vector of entries never reaches this length.
  versions : log.entries.length < 2 ^ 63 → ∀ policyClass,
    (versionsOf policyClass log.entries).Pairwise (· < ·)

-- The published versions count up from the class's first change.
theorem Chronicle.versions_increase (hchronicle : Chronicle state log)
    (hfits : log.entries.length < 2 ^ 63) (policyClass : PolicyClass) :
    (versionsOf policyClass log.entries).Pairwise (· < ·) := by
  have hcount : (versionsOf policyClass log.entries).length ≤ log.entries.length :=
    List.length_filterMap_le _ _
  rw [hchronicle.versions policyClass, List.pairwise_map]
  refine List.pairwise_lt_range.imp_of_mem ?_
  intro first second hfirst hsecond hlt
  have hfirst := List.mem_range.1 hfirst
  have hsecond := List.mem_range.1 hsecond
  rw [UInt64.lt_iff_toNat_lt, UInt64.toNat_ofNat', UInt64.toNat_ofNat',
    Nat.mod_eq_of_lt (by omega), Nat.mod_eq_of_lt (by omega)]
  omega

theorem Chronicle.honest {genesis : Epoch} (hchronicle : Chronicle state log)
    (hcorrect : Signature.Correct) (hrecorded : Recorded genesis state) :
    Honest genesis state log where
  verified := hchronicle.chained.verifyLog hcorrect
  conforming := by
    rw [conforms_iff]
    refine ⟨hchronicle.ordered, ?_⟩
    obtain ⟨earlier, hentries, hunfrozen⟩ := hchronicle.closing
    rw [hentries]
    intro entry hentry
    cases hdissolved : state.dissolved with
    | true =>
        rw [hdissolved, if_pos rfl, List.dropLast_concat] at hentry
        exact hunfrozen entry hentry
    | false =>
        rw [hdissolved, if_neg (by decide), List.append_nil] at hentry
        exact hunfrozen entry (List.dropLast_subset _ hentry)
  sequences := hchronicle.chained.sequences
  dated := fun entry hentry => (hrecorded.begun _).1 (hchronicle.dated entry hentry)
  chapters := by
    intro epoch hsince hpast
    obtain ⟨snapshot, hsnapshot⟩ := Option.isSome_iff_exists.1
      (ExtTreeMap.mem_iff_isSome_getElem?.1 ((hrecorded.begun epoch.get).2 ⟨hsince, hpast⟩))
    obtain ⟨changes, hchapter⟩ := hchronicle.chapters epoch snapshot hsnapshot
    exact ⟨snapshot, changes, hsnapshot, hrecorded.named _ _ hsnapshot,
      ExtTreeMap.ordered_keys_toList, hchapter⟩
  versions := hchronicle.versions_increase

-- An agora that keeps a log keeps an honest one in every run, and only ever adds to it.
theorem published_log_is_honest {founding : Founding}
    {tagSecret statementEntropy logSeed : Bytes 32}
    (hcreate : create founding tagSecret statementEntropy (some logSeed) = .ok created)
    (hexecution : Execution system created history state) (hcorrect : Signature.Correct) :
    ∃ log, state.log = some log ∧ Honest founding.genesis state log ∧
      ∀ earlier later (middle : AgoraState depth), history = earlier ++ later →
        Execution system created earlier middle → Execution system middle later state →
          ∃ before, middle.log = some before ∧ before.Extends log := by
  have hfresh := fresh_of_create hcreate
  obtain ⟨opened, hopened⟩ : ∃ opened, created.log = some opened := by
    obtain ⟨classes, _, _, _, rfl⟩ := opening_of_create hcreate
    exact ⟨_, snapshot_log _⟩
  obtain ⟨log, hlog, _⟩ := hexecution.log_extends hfresh.sound hopened
  have hchronicle := hexecution.chronicled hfresh.sound (chronicled_of_create hcreate) log hlog
  refine ⟨log, hlog, hchronicle.honest hcorrect
    (hexecution.recorded hfresh.sound hfresh.recorded), ?_⟩
  intro earlier later middle _ hearlier hlater
  obtain ⟨before, hbefore, _⟩ := hearlier.log_extends hfresh.sound hopened
  obtain ⟨reached, hreached, hextends⟩ := hlater.log_extends (hearlier.sound hfresh.sound) hbefore
  obtain rfl := Option.some_inj.1 (hreached.symm.trans hlog)
  exact ⟨before, hbefore, hextends⟩

end Nymora.Protocol.Operator.AgoraState

namespace Nymora.Protocol.Operator.AgoraState.Sample

open Nymora.Core
open Nymora.Crypto
open scoped Nymora.Crypto.Reference

theorem founds_logged :
    (create founding entropy entropy (some entropy) : Except _ (AgoraState 2)).toOption.isSome := by
  decide +kernel

-- The same agora with a log.
def loggedStart : AgoraState 2 :=
  (create founding entropy entropy (some entropy)).toOption.get founds_logged

theorem create_loggedStart : create founding entropy entropy (some entropy) = .ok loggedStart :=
  eq_ok_get founds_logged

theorem published_log_is_honest_advanced :
    ∃ log, (reached (accepting 2) loggedStart [.advanceEpoch]).log = some log ∧
      Honest founding.genesis (reached (accepting 2) loggedStart [.advanceEpoch]) log ∧
      ∀ earlier later (middle : AgoraState 2),
        played (accepting 2) loggedStart [.advanceEpoch] = earlier ++ later →
          Execution (accepting 2) loggedStart earlier middle →
            Execution (accepting 2) middle later
              (reached (accepting 2) loggedStart [.advanceEpoch]) →
              ∃ before, middle.log = some before ∧ before.Extends log :=
  published_log_is_honest create_loggedStart (execution_played [.advanceEpoch])
    Reference.signature_correct

end Nymora.Protocol.Operator.AgoraState.Sample
