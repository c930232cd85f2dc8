import Nymora.Protocol.Operator.Run.Snapshots

namespace Nymora.Protocol.Operator

open Nymora.Core

-- The entries a log holds for an epoch.
def entriesOf (epoch : Epoch) (entries : List LogEntry) : List LogEntry :=
  entries.filter fun entry => entry.epoch = epoch

-- The versions a log publishes for a class.
def versionsOf (policyClass : PolicyClass) (entries : List LogEntry) : List UInt64 :=
  entries.filterMap fun
    | .PolicyChanged _ changed version => if changed = policyClass then some version else none
    | _ => none

-- An epoch's entries: its roots, its policy changes, and the freeze if it came then.
structure Chapter (snapshot : Snapshot) (epoch : Epoch) (frozen : Bool)
    (changes entries : List LogEntry) : Prop where
  policies : ∀ change ∈ changes, ∃ policyClass version, change = .PolicyChanged epoch policyClass version
  entries_eq : entries =
    snapshot.published epoch ++ changes ++ if frozen then [.Frozen epoch] else []

theorem Snapshot.mem_published {snapshot : Snapshot} {epoch : Epoch} {entry : LogEntry}
    (hentry : entry ∈ snapshot.published epoch) :
    entry.epoch = epoch ∧ entry.isFrozen = false ∧
      ∀ changed policyClass version, entry ≠ .PolicyChanged changed policyClass version := by
  rcases List.mem_append.1 hentry with hroot | hsets
  · obtain ⟨named, _, rfl⟩ := List.mem_map.1 hroot
    exact ⟨rfl, rfl, fun _ _ _ => LogEntry.noConfusion⟩
  · obtain rfl := List.mem_singleton.1 hsets
    exact ⟨rfl, rfl, fun _ _ _ => LogEntry.noConfusion⟩

theorem versionsOf_append (policyClass : PolicyClass) (first second : List LogEntry) :
    versionsOf policyClass (first ++ second) =
      versionsOf policyClass first ++ versionsOf policyClass second :=
  List.filterMap_append

theorem versionsOf_published (policyClass : PolicyClass) (snapshot : Snapshot) (epoch : Epoch) :
    versionsOf policyClass (snapshot.published epoch) = [] := by
  unfold versionsOf
  rw [List.filterMap_eq_nil_iff]
  intro entry hentry
  have hnone := (Snapshot.mem_published hentry).2.2
  cases entry with
  | PolicyChanged changed named version => exact absurd rfl (hnone changed named version)
  | _ => rfl

theorem entriesOf_append (epoch : Epoch) (first second : List LogEntry) :
    entriesOf epoch (first ++ second) = entriesOf epoch first ++ entriesOf epoch second :=
  List.filter_append ..

theorem entriesOf_eq_self {epoch : Epoch} {entries : List LogEntry}
    (hentries : ∀ entry ∈ entries, entry.epoch = epoch) : entriesOf epoch entries = entries :=
  List.filter_eq_self.2 fun entry hentry => decide_eq_true (hentries entry hentry)

theorem entriesOf_eq_nil {epoch : Epoch} {entries : List LogEntry}
    (hentries : ∀ entry ∈ entries, entry.epoch ≠ epoch) : entriesOf epoch entries = [] :=
  List.filter_eq_nil_iff.2 fun entry hentry => by simpa using hentries entry hentry

theorem entriesOf_singleton (entry : LogEntry) : entriesOf entry.epoch [entry] = [entry] :=
  entriesOf_eq_self fun _ hentry => congrArg LogEntry.epoch (List.mem_singleton.1 hentry)

theorem entriesOf_singleton_of_ne {epoch : Epoch} {entry : LogEntry} (hne : entry.epoch ≠ epoch) :
    entriesOf epoch [entry] = [] :=
  entriesOf_eq_nil fun other hother => by rwa [List.mem_singleton.1 hother]

end Nymora.Protocol.Operator

namespace Nymora.Protocol.Operator.AgoraState

open Nymora.Core
open Nymora.Crypto
open Nymora.Circuits
open Std (ExtTreeMap ExtTreeSet)

variable {depth : Nat} {system : ProofSystem depth} [Primitives]
  {before after created start state : AgoraState depth} {history : History system}
  {log : TransparencyLog}

-- How a log stands to the state that keeps it.
structure Chronicle (state : AgoraState depth) (log : TransparencyLog) : Prop where
  chained : log.Chained
  ordered : log.entries.Pairwise fun earlier later => earlier.epoch.get ≤ later.epoch.get
  dated : ∀ entry ∈ log.entries, entry.epoch.get ∈ state.history
  closing : ∃ earlier, log.entries =
      earlier ++ (if state.dissolved then [.Frozen state.epoch] else []) ∧
    ∀ entry ∈ earlier, entry.isFrozen = false
  chapters : ∀ (epoch : Epoch) (snapshot : Snapshot), state.history[epoch.get]? = some snapshot →
    ∃ changes, Chapter snapshot epoch (state.dissolved && state.epoch == epoch) changes
      (entriesOf epoch log.entries)
  versions : ∀ policyClass, versionsOf policyClass log.entries =
    (List.range (versionsOf policyClass log.entries).length).map fun change =>
      UInt64.ofNat (change + 2)
  current : ∀ (policyClass : PolicyClass) (entry : ClassState depth),
    state.classes[policyClass]? = some entry →
      entry.version = UInt64.ofNat ((versionsOf policyClass log.entries).length + 1)

theorem Chronicle.congr (hchronicle : Chronicle before log) (hepoch : after.epoch = before.epoch)
    (hhistory : after.history = before.history) (hdissolved : after.dissolved = before.dissolved)
    (hclasses : after.classes = before.classes) : Chronicle after log where
  chained := hchronicle.chained
  ordered := hchronicle.ordered
  dated := by
    rw [hhistory]
    exact hchronicle.dated
  closing := by
    rw [hdissolved, hepoch]
    exact hchronicle.closing
  chapters := by
    rw [hhistory, hdissolved, hepoch]
    exact hchronicle.chapters
  versions := hchronicle.versions
  current := by
    rw [hclasses]
    exact hchronicle.current

theorem Chronicle.unfrozen (hchronicle : Chronicle state log) (hlive : state.dissolved = false) :
    ∀ entry ∈ log.entries, entry.isFrozen = false := by
  obtain ⟨earlier, hentries, hunfrozen⟩ := hchronicle.closing
  rw [hlive, if_neg (by decide), List.append_nil] at hentries
  rw [hentries]
  exact hunfrozen

-- Entries of an epoch no earlier than those logged keep the order.
theorem Chronicle.ordered_append (hchronicle : Chronicle state log) {entries : List LogEntry}
    {epoch : Epoch} (hdated : ∀ number ∈ state.history, number ≤ epoch.get)
    (hentries : ∀ entry ∈ entries, entry.epoch = epoch) :
    (log.entries ++ entries).Pairwise fun earlier later =>
      earlier.epoch.get ≤ later.epoch.get := by
  refine List.pairwise_append.2 ⟨hchronicle.ordered, ?_, ?_⟩
  · refine List.pairwise_of_forall_mem_list fun earlier hearlier later hlater => ?_
    rw [hentries earlier hearlier, hentries later hlater]
  · intro earlier hearlier later hlater
    rw [hentries later hlater]
    exact hdated _ (hchronicle.dated earlier hearlier)

-- A new epoch opens its chapter with its snapshot.
theorem Chronicle.publish (hchronicle : Chronicle before log) (hlive : before.dissolved = false)
    (hafter : after.dissolved = false) (hlater : ∀ number ∈ before.history, number < after.epoch.get)
    (hhistory : after.history = before.history.insert after.epoch.get after.rootsNow)
    (hversions : ∀ (policyClass : PolicyClass) (entry : ClassState depth),
      after.classes[policyClass]? = some entry → ∃ earlier,
        before.classes[policyClass]? = some earlier ∧ entry.version = earlier.version) :
    Chronicle after (log.publish (after.rootsNow.published after.epoch)) where
  chained := hchronicle.chained.publish _
  ordered := by
    rw [TransparencyLog.publish_entries]
    exact hchronicle.ordered_append (fun number hnumber => Nat.le_of_lt (hlater number hnumber))
      fun entry hentry => (Snapshot.mem_published hentry).1
  dated := by
    intro entry hentry
    rw [TransparencyLog.publish_entries] at hentry
    rw [hhistory, ExtTreeMap.mem_insert, Std.compare_eq_iff_eq]
    rcases List.mem_append.1 hentry with hearlier | hpublished
    · exact Or.inr (hchronicle.dated entry hearlier)
    · exact Or.inl (congrArg Epoch.get (Snapshot.mem_published hpublished).1).symm
  closing := by
    refine ⟨_, by rw [hafter, if_neg (by decide), List.append_nil], ?_⟩
    intro entry hentry
    rw [TransparencyLog.publish_entries] at hentry
    rcases List.mem_append.1 hentry with hearlier | hpublished
    · exact hchronicle.unfrozen hlive entry hearlier
    · exact (Snapshot.mem_published hpublished).2.1
  chapters := by
    intro epoch snapshot hsnapshot
    rw [hhistory] at hsnapshot
    simp only [ExtTreeMap.getElem?_insert, Std.compare_eq_iff_eq] at hsnapshot
    rw [TransparencyLog.publish_entries, entriesOf_append, hafter, Bool.false_and]
    by_cases heq : after.epoch.get = epoch.get
    · rw [if_pos heq, Option.some_inj] at hsnapshot
      obtain rfl := Epoch.ext heq
      have hnone : entriesOf after.epoch log.entries = [] := by
        refine entriesOf_eq_nil fun entry hentry hsame => ?_
        have hlt := hlater _ (hchronicle.dated entry hentry)
        rw [hsame] at hlt
        exact Nat.lt_irrefl _ hlt
      refine ⟨[], by simp, ?_⟩
      rw [hnone, entriesOf_eq_self fun entry hentry => (Snapshot.mem_published hentry).1,
        ← hsnapshot]
      simp
    · rw [if_neg heq] at hsnapshot
      obtain ⟨changes, hchapter⟩ := hchronicle.chapters epoch snapshot hsnapshot
      rw [hlive, Bool.false_and] at hchapter
      have hnone : entriesOf epoch (after.rootsNow.published after.epoch) = [] := by
        refine entriesOf_eq_nil fun entry hentry hsame => ?_
        exact heq (congrArg Epoch.get ((Snapshot.mem_published hentry).1.symm.trans hsame))
      rw [hnone, List.append_nil]
      exact ⟨changes, hchapter⟩
  versions := by
    intro policyClass
    rw [TransparencyLog.publish_entries, versionsOf_append, versionsOf_published, List.append_nil]
    exact hchronicle.versions policyClass
  current := by
    intro policyClass entry hentry
    obtain ⟨earlier, hearlier, hversion⟩ := hversions policyClass entry hentry
    rw [TransparencyLog.publish_entries, versionsOf_append, versionsOf_published, List.append_nil,
      hversion]
    exact hchronicle.current policyClass earlier hearlier

-- A policy change is added to the current chapter under its class's next version.
theorem Chronicle.policy {policyClass : PolicyClass} {entry : ClassState depth}
    {admissionThreshold governanceQuorum : UInt32} (hchronicle : Chronicle state log)
    (hlive : state.dissolved = false) (hbegun : state.epoch.get ∈ state.history)
    (hdated : ∀ number ∈ state.history, number ≤ state.epoch.get)
    (hentry : state.classes[policyClass]? = some entry) :
    Chronicle (state.withPolicy policyClass entry admissionThreshold governanceQuorum)
      (log.append (.PolicyChanged state.epoch policyClass (entry.version + 1))) where
  chained := hchronicle.chained.append _
  ordered := hchronicle.ordered_append hdated fun entry hentry =>
    congrArg LogEntry.epoch (List.mem_singleton.1 hentry)
  dated := by
    intro logged hlogged
    rcases List.mem_append.1 hlogged with hearlier | hlast
    · exact hchronicle.dated logged hearlier
    · rw [List.mem_singleton.1 hlast]
      exact hbegun
  closing := by
    refine ⟨_, by rw [withPolicy, hlive, if_neg (by decide), List.append_nil], ?_⟩
    intro logged hlogged
    rcases List.mem_append.1 hlogged with hearlier | hlast
    · exact hchronicle.unfrozen hlive logged hearlier
    · rw [List.mem_singleton.1 hlast]
      rfl
  chapters := by
    intro epoch snapshot hsnapshot
    obtain ⟨changes, hpolicies, hentries⟩ := hchronicle.chapters epoch snapshot hsnapshot
    rw [hlive, Bool.false_and, if_neg (by decide), List.append_nil] at hentries
    rw [TransparencyLog.append_entries, entriesOf_append, hentries, withPolicy, hlive,
      Bool.false_and]
    by_cases heq : state.epoch = epoch
    · subst heq
      refine ⟨changes ++ [.PolicyChanged state.epoch policyClass (entry.version + 1)], ?_, ?_⟩
      · intro change hchange
        rcases List.mem_append.1 hchange with hearlier | hlast
        · exact hpolicies change hearlier
        · exact ⟨policyClass, _, List.mem_singleton.1 hlast⟩
      · have hlast := entriesOf_singleton (.PolicyChanged state.epoch policyClass (entry.version + 1))
        simp only [LogEntry.epoch] at hlast
        rw [hlast, if_neg (by decide), List.append_nil, List.append_assoc]
    · refine ⟨changes, hpolicies, ?_⟩
      have hnone : entriesOf epoch
          [.PolicyChanged state.epoch policyClass (entry.version + 1)] = [] :=
        entriesOf_singleton_of_ne heq
      rw [hnone, if_neg (by decide)]
  versions := by
    intro other
    rw [TransparencyLog.append_entries, versionsOf_append]
    have hearlier := hchronicle.versions other
    by_cases heq : policyClass = other
    · subst heq
      have hlast : versionsOf policyClass
          [.PolicyChanged state.epoch policyClass (entry.version + 1)] = [entry.version + 1] := by
        simp [versionsOf]
      have hversion : entry.version + 1 =
          UInt64.ofNat ((versionsOf policyClass log.entries).length + 2) := by
        rw [hchronicle.current policyClass entry hentry]
        exact (UInt64.ofNat_add _ 1).symm
      rw [hlast, List.length_append, List.length_singleton, List.range_succ, List.map_append,
        ← hearlier, hversion]
      rfl
    · have hnone : versionsOf other
          [.PolicyChanged state.epoch policyClass (entry.version + 1)] = [] := by
        simp [versionsOf, heq]
      rw [hnone, List.append_nil]
      exact hearlier
  current := by
    intro other changed hchanged
    simp only [withPolicy, ExtTreeMap.getElem?_insert, Std.compare_eq_iff_eq] at hchanged
    rw [TransparencyLog.append_entries, versionsOf_append]
    by_cases heq : policyClass = other
    · subst heq
      rw [if_pos rfl, Option.some_inj] at hchanged
      rw [← hchanged]
      simp only [versionsOf, List.filterMap_cons, List.filterMap_nil, if_pos, List.length_append,
        List.length_singleton]
      rw [hchronicle.current policyClass entry hentry]
      exact (UInt64.ofNat_add _ 1).symm
    · rw [if_neg heq] at hchanged
      have hnone : versionsOf other
          [.PolicyChanged state.epoch policyClass (entry.version + 1)] = [] := by
        simp [versionsOf, heq]
      rw [hnone, List.append_nil]
      exact hchronicle.current other changed hchanged

-- The freeze closes the current chapter and the log.
theorem Chronicle.dissolve (hchronicle : Chronicle state log) (hlive : state.dissolved = false)
    (hbegun : state.epoch.get ∈ state.history)
    (hdated : ∀ number ∈ state.history, number ≤ state.epoch.get) :
    Chronicle state.dissolve (log.append (.Frozen state.epoch)) where
  chained := hchronicle.chained.append _
  ordered := hchronicle.ordered_append hdated fun entry hentry =>
    congrArg LogEntry.epoch (List.mem_singleton.1 hentry)
  dated := by
    intro logged hlogged
    rcases List.mem_append.1 hlogged with hearlier | hlast
    · exact hchronicle.dated logged hearlier
    · rw [List.mem_singleton.1 hlast]
      exact hbegun
  closing := ⟨log.entries, rfl, hchronicle.unfrozen hlive⟩
  chapters := by
    intro epoch snapshot hsnapshot
    obtain ⟨changes, hpolicies, hentries⟩ := hchronicle.chapters epoch snapshot hsnapshot
    rw [hlive, Bool.false_and, if_neg (by decide), List.append_nil] at hentries
    have hfrozen : (state.dissolve.dissolved && state.dissolve.epoch == epoch) =
        (state.epoch == epoch) := rfl
    refine ⟨changes, hpolicies, ?_⟩
    rw [TransparencyLog.append_entries, entriesOf_append, hentries, hfrozen]
    by_cases heq : state.epoch = epoch
    · subst heq
      have hlast := entriesOf_singleton (.Frozen state.epoch)
      simp only [LogEntry.epoch] at hlast
      rw [hlast, if_pos (beq_self_eq_true _)]
    · have hnone : entriesOf epoch [.Frozen state.epoch] = [] := entriesOf_singleton_of_ne heq
      rw [hnone, if_neg (by simpa using heq)]
  versions := by
    intro policyClass
    rw [TransparencyLog.append_entries, versionsOf_append]
    simp only [versionsOf, List.filterMap_cons, List.filterMap_nil, List.append_nil]
    exact hchronicle.versions policyClass
  current := by
    intro policyClass entry hentry
    rw [TransparencyLog.append_entries, versionsOf_append]
    simp only [versionsOf, List.filterMap_cons, List.filterMap_nil, List.append_nil]
    exact hchronicle.current policyClass entry hentry

-- Whatever log a state keeps is its chronicle.
def Chronicled (state : AgoraState depth) : Prop :=
  ∀ log, state.log = some log → Chronicle state log

theorem Quiet.chronicled (hquiet : Quiet before after) (hchronicled : Chronicled before) :
    Chronicled after := by
  intro log hlog
  rw [hquiet.log] at hlog
  exact (hchronicled log hlog).congr hquiet.epoch hquiet.history hquiet.dissolved hquiet.classes

-- A dissolved agora writes nothing but what is open or staged.
theorem Transition.quiet_of_dissolved {call : Call system} {outcome : Outcome}
    (htransition : Transition system before call outcome after)
    (hdissolved : before.dissolved = true) : Quiet before after := by
  cases htransition with
  | execute hcarried _ => exact absurd (hcarried.live.symm.trans hdissolved) (by decide)
  | advanceEpoch hlive _ => exact absurd (hlive.symm.trans hdissolved) (by decide)
  | _ => exact ⟨rfl, rfl, rfl, rfl, rfl, rfl, rfl, rfl, rfl, rfl, rfl, rfl, rfl⟩

theorem Course.chronicled (hcourse : Course before after) (hlive : before.dissolved = false)
    (hsound : before.Sound) (hchronicled : Chronicled before) : Chronicled after := by
  have hbegun : before.epoch.get ∈ before.history :=
    ExtTreeMap.mem_iff_isSome_getElem?.2 (by rw [hsound.rooted]; rfl)
  have hwithin : ∀ {ready : AgoraState depth}, Ready before ready → Chronicled ready ∧
      ready.dissolved = false ∧ ready.epoch.get ∈ ready.history ∧
        ∀ number ∈ ready.history, number ≤ ready.epoch.get := by
    intro ready hready
    refine ⟨hready.quiet.chronicled hchronicled, hready.quiet.dissolved.trans hlive, ?_,
      hready.quiet.dated hsound.dated⟩
    rw [hready.quiet.history, hready.quiet.epoch]
    exact hbegun
  cases hcourse with
  | quiet hquiet => exact hquiet.chronicled hchronicled
  | policy hready hentry =>
      obtain ⟨hcarried, hopen, hpresent, hdated⟩ := hwithin hready
      intro later hlater
      simp only [withPolicy, Option.map_eq_some_iff] at hlater
      obtain ⟨log, hlog, rfl⟩ := hlater
      exact (hcarried log hlog).policy hopen hpresent hdated hentry
  | dissolution hready =>
      obtain ⟨hcarried, hopen, hpresent, hdated⟩ := hwithin hready
      intro later hlater
      simp only [AgoraState.dissolve, Option.map_eq_some_iff] at hlater
      obtain ⟨log, hlog, rfl⟩ := hlater
      exact (hcarried log hlog).dissolve hopen hpresent hdated
  | inboxHorizon hready =>
      obtain ⟨hcarried, _⟩ := hwithin hready
      intro log hlog
      exact (hcarried log hlog).congr rfl rfl rfl rfl
  | @boundary ready _ _ _ hready hboundary =>
      obtain ⟨hcarried, hopen, _, hdated⟩ := hwithin hready
      intro later hlater
      rw [hboundary.log, Option.map_eq_some_iff] at hlater
      obtain ⟨log, hlog, rfl⟩ := hlater
      rw [← hboundary.epoch]
      refine (hcarried log hlog).publish hopen (hboundary.dissolved.trans hopen) ?_ ?_ ?_
      · intro number hnumber
        have hle := hdated number hnumber
        have hnext := hboundary.epoch_get
        omega
      · rw [hboundary.history, hboundary.epoch]
      · intro policyClass entry hentry
        cases hearlier : ready.classes[policyClass]? with
        | none =>
            rw [hboundary.unconfigured policyClass hearlier] at hentry
            cases hentry
        | some earlier =>
            obtain ⟨landed, hlanded, hlands⟩ := hboundary.lands policyClass earlier hearlier
            obtain rfl : entry = landed := Option.some_inj.1 (hentry.symm.trans hlanded)
            exact ⟨earlier, rfl, hlands.version_eq⟩

-- A log only ever gains entries, each with its head.
theorem Course.log_extends (hcourse : Course before after) (hlog : before.log = some log) :
    ∃ later, after.log = some later ∧ log.Extends later := by
  cases hcourse with
  | quiet hquiet => exact ⟨log, by rw [hquiet.log, hlog], .refl log⟩
  | @policy ready policyClass entry _ _ hready _ =>
      refine ⟨log.append (.PolicyChanged ready.epoch policyClass (entry.version + 1)), ?_,
        log.extends_append _⟩
      rw [withPolicy, hready.quiet.log, hlog]
      rfl
  | @dissolution ready hready =>
      refine ⟨log.append (.Frozen ready.epoch), ?_, log.extends_append _⟩
      rw [AgoraState.dissolve, hready.quiet.log, hlog]
      rfl
  | inboxHorizon hready => exact ⟨log, by rw [← hlog, ← hready.quiet.log], .refl log⟩
  | @boundary _ _ next _ hready hboundary =>
      refine ⟨log.publish (after.rootsNow.published next), ?_, log.extends_publish _⟩
      rw [hboundary.log, hready.quiet.log, hlog]
      rfl

theorem chronicle_opening {founding : Founding} {tagSecret statementEntropy : Bytes 32}
    {logSeed : Option (Bytes 32)} {seed : Bytes 32}
    {classes : ExtTreeMap PolicyClass (ClassState depth)}
    (hversions : ∀ (policyClass : PolicyClass) (entry : ClassState depth),
      classes[policyClass]? = some entry → entry.version = 1) :
    Chronicle (opening founding tagSecret statementEntropy logSeed classes) (.new seed) where
  chained := TransparencyLog.chained_new seed
  ordered := List.Pairwise.nil
  dated := by simp [TransparencyLog.new]
  closing := ⟨[], rfl, by simp⟩
  chapters := by simp [opening]
  versions := fun _ => rfl
  current := hversions

theorem chronicled_of_create {founding : Founding} {tagSecret statementEntropy : Bytes 32}
    {logSeed : Option (Bytes 32)}
    (hcreate : create founding tagSecret statementEntropy logSeed = .ok created) :
    Chronicled created := by
  obtain ⟨classes, _, _, hversions, rfl⟩ := opening_of_create hcreate
  intro log hlog
  rw [snapshot_log, Option.map_eq_some_iff] at hlog
  obtain ⟨opened, hopened, rfl⟩ := hlog
  obtain ⟨seed, _, rfl⟩ := Option.map_eq_some_iff.1 hopened
  refine (chronicle_opening hversions).publish rfl rfl (by simp [opening]) rfl ?_
  intro policyClass entry hentry
  exact ⟨entry, hentry, rfl⟩

theorem Execution.chronicled (hexecution : Execution system start history state)
    (hsound : start.Sound) (hchronicled : Chronicled start) : Chronicled state := by
  refine hexecution.carries hsound hchronicled ?_
  intro before after call outcome hbefore htransition hearlier
  cases hdissolved : before.dissolved with
  | true => exact (htransition.quiet_of_dissolved hdissolved).chronicled hearlier
  | false => exact htransition.course.chronicled hdissolved hbefore hearlier

theorem Execution.log_extends (hexecution : Execution system start history state)
    (hsound : start.Sound) (hlog : start.log = some log) :
    ∃ later, state.log = some later ∧ log.Extends later :=
  hexecution.preserves (motive := fun current => ∃ later, current.log = some later ∧
    log.Extends later) hsound ⟨log, hlog, .refl log⟩ (by
      rintro before after _ hcourse ⟨middle, hmiddle, hextends⟩
      obtain ⟨later, hlater, hmore⟩ := hcourse.log_extends hmiddle
      exact ⟨later, hlater, hextends.trans hmore⟩)

end Nymora.Protocol.Operator.AgoraState
