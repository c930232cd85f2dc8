import Nymora.Crypto.Signature.Theorems
import Nymora.Protocol.Operator.Log

namespace Nymora.Protocol.Operator

open Nymora.Core
open Nymora.Crypto

section Conformance

-- Epochs in order, and a freeze only at the end.
structure Conforming (entries : List LogEntry) : Prop where
  ordered : entries.Pairwise fun earlier later => earlier.epoch.get ≤ later.epoch.get
  unfrozen : ∀ entry ∈ entries.dropLast, entry.isFrozen = false

theorem conforming_cons {entry : LogEntry} {entries : List LogEntry} :
    Conforming (entry :: entries) ↔ Conforming entries ∧
      (entry.isFrozen = true → entries = []) ∧
      ∀ later ∈ entries, entry.epoch.get ≤ later.epoch.get := by
  constructor
  · intro hconforming
    obtain ⟨hfirst, hordered⟩ := List.pairwise_cons.1 hconforming.ordered
    cases entries with
    | nil => exact ⟨⟨hordered, by simp⟩, fun _ => rfl, hfirst⟩
    | cons next entries =>
        have hunfrozen := hconforming.unfrozen
        rw [List.dropLast_cons_of_ne_nil (List.cons_ne_nil _ _)] at hunfrozen
        refine ⟨⟨hordered, fun later hlater => hunfrozen later (List.mem_cons_of_mem _ hlater)⟩,
          ?_, hfirst⟩
        intro hfrozen
        rw [hunfrozen entry List.mem_cons_self] at hfrozen
        cases hfrozen
  · rintro ⟨hconforming, hfreeze, hfirst⟩
    refine ⟨List.pairwise_cons.2 ⟨hfirst, hconforming.ordered⟩, ?_⟩
    cases entries with
    | nil => simp
    | cons next entries =>
        rw [List.dropLast_cons_of_ne_nil (List.cons_ne_nil _ _)]
        intro other hother
        rcases List.mem_cons.1 hother with rfl | hlater
        · exact Bool.eq_false_iff.2 fun hfrozen => List.cons_ne_nil _ _ (hfreeze hfrozen)
        · exact hconforming.unfrozen other hlater

theorem conformsFrom_iff {last : Option Epoch} {frozen : Bool} {entries : List LogEntry} :
    conformsFrom last frozen entries = true ↔
      Conforming entries ∧ (frozen = true → entries = []) ∧
        ∀ previous ∈ last, ∀ entry ∈ entries, previous.get ≤ entry.epoch.get := by
  induction entries generalizing last frozen with
  | nil => simp [conformsFrom, Conforming.mk]
  | cons entry entries ih =>
      unfold conformsFrom
      cases frozen with
      | true => simp
      | false =>
          rw [if_neg (by decide), conforming_cons]
          by_cases hrewinds : last.any fun previous => entry.epoch.get < previous.get
          · rw [if_pos hrewinds]
            simp only [Option.any_eq_true, decide_eq_true_eq] at hrewinds
            obtain ⟨previous, rfl, hlt⟩ := hrewinds
            refine iff_of_false (by decide) ?_
            rintro ⟨_, _, hlast⟩
            have hle := hlast previous rfl entry List.mem_cons_self
            omega
          · rw [if_neg hrewinds, ih]
            simp only [Option.any_eq_true, decide_eq_true_eq, not_exists, not_and,
              Nat.not_lt] at hrewinds
            simp only [Bool.false_or, Option.mem_def, Option.some_inj, forall_eq',
              Bool.false_eq_true, false_implies, true_and, List.forall_mem_cons]
            constructor
            · rintro ⟨hconforming, hfreeze, hfirst⟩
              refine ⟨⟨hconforming, hfreeze, hfirst⟩, fun previous hprevious => ?_⟩
              have hle := hrewinds previous hprevious
              exact ⟨hle, fun later hlater => Nat.le_trans hle (hfirst later hlater)⟩
            · rintro ⟨hentries, _⟩
              exact hentries

theorem conforms_iff {entries : List LogEntry} : conforms entries = true ↔ Conforming entries := by
  unfold conforms
  rw [conformsFrom_iff]
  simp

end Conformance

section Chain

variable [Primitives]

theorem recompute_append (chain : Bytes 32) (first second : List LogEntry) :
    recompute chain (first ++ second) = recompute chain first ++
      recompute ((recompute chain first).getLast?.getD chain) second := by
  induction first generalizing chain with
  | nil => rfl
  | cons entry first ih =>
      rw [List.cons_append, recompute, ih, recompute, List.cons_append]
      congr 3
      cases hrest : recompute (chainStep chain entry) first with
      | nil => simp
      | cons next rest => simp [List.getLast?_cons]

@[simp] theorem length_recompute (chain : Bytes 32) (entries : List LogEntry) :
    (recompute chain entries).length = entries.length := by
  induction entries generalizing chain with
  | nil => rfl
  | cons entry entries ih => rw [recompute, List.length_cons, ih, List.length_cons]

namespace TransparencyLog

-- Appends entries in turn.
def publish (log : TransparencyLog) (entries : List LogEntry) : TransparencyLog :=
  entries.foldl append log

@[simp] theorem append_entries (log : TransparencyLog) (entry : LogEntry) :
    (log.append entry).entries = log.entries ++ [entry] := rfl

@[simp] theorem append_seed (log : TransparencyLog) (entry : LogEntry) :
    (log.append entry).seed = log.seed := rfl

-- The head an operator signs over a digest of the chain.
def signed (log : TransparencyLog) (linked : Bytes 32 × Nat) : SignedHead :=
  ⟨linked.2, linked.1, log.seed.sign (headMessage linked.2 linked.1)⟩

-- One head for each entry, over the chain an auditor recomputes.
def Chained (log : TransparencyLog) : Prop :=
  log.heads = (recompute (Bytes.zero 32) log.entries).zipIdx.map log.signed

theorem chained_new (seed : Bytes 32) : (new seed).Chained := rfl

theorem Chained.digests {log : TransparencyLog} (hchained : log.Chained) :
    log.heads.map SignedHead.head = recompute (Bytes.zero 32) log.entries := by
  rw [hchained, List.map_map]
  exact List.zipIdx_map_fst 0 _

theorem Chained.sequences {log : TransparencyLog} (hchained : log.Chained) :
    log.heads.map SignedHead.sequence = List.range log.entries.length := by
  rw [hchained, List.map_map]
  have hindices := List.zipIdx_map_snd 0 (recompute (Bytes.zero 32) log.entries)
  rw [length_recompute] at hindices
  rw [List.range_eq_range', ← hindices]
  rfl

theorem Chained.append {log : TransparencyLog} (hchained : log.Chained) (entry : LogEntry) :
    (log.append entry).Chained := by
  have hlast : (log.heads.getLast?.map SignedHead.head).getD (Bytes.zero 32) =
      (recompute (Bytes.zero 32) log.entries).getLast?.getD (Bytes.zero 32) := by
    rw [← List.getLast?_map, hchained.digests]
  unfold Chained
  rw [append_entries, recompute_append, List.zipIdx_append, List.map_append, length_recompute,
    ← hlast, Nat.zero_add]
  exact congrArg (· ++ [log.signed (chainStep ((log.heads.getLast?.map SignedHead.head).getD
    (Bytes.zero 32)) entry, log.entries.length)]) hchained

-- A later state of a log: entries and heads are added, the key stays.
structure Extends (log later : TransparencyLog) : Prop where
  seed : later.seed = log.seed
  entries : log.entries <+: later.entries
  heads : log.heads <+: later.heads

omit [Primitives] in
theorem Extends.refl (log : TransparencyLog) : Extends log log :=
  ⟨rfl, List.prefix_rfl, List.prefix_rfl⟩

omit [Primitives] in
theorem Extends.trans {log middle later : TransparencyLog} (hfirst : Extends log middle)
    (hsecond : Extends middle later) : Extends log later :=
  ⟨hsecond.seed.trans hfirst.seed, hfirst.entries.trans hsecond.entries,
    hfirst.heads.trans hsecond.heads⟩

theorem extends_append (log : TransparencyLog) (entry : LogEntry) :
    Extends log (log.append entry) :=
  ⟨rfl, List.prefix_append _ _, List.prefix_append _ _⟩

theorem publish_entries (log : TransparencyLog) (entries : List LogEntry) :
    (log.publish entries).entries = log.entries ++ entries := by
  induction entries generalizing log with
  | nil => simp [publish]
  | cons entry entries ih =>
      have hrest := ih (log.append entry)
      rw [append_entries, List.append_assoc] at hrest
      exact hrest

theorem Chained.publish {log : TransparencyLog} (hchained : log.Chained)
    (entries : List LogEntry) : (log.publish entries).Chained := by
  induction entries generalizing log with
  | nil => exact hchained
  | cons entry entries ih => exact ih (hchained.append entry)

theorem extends_publish (log : TransparencyLog) (entries : List LogEntry) :
    Extends log (log.publish entries) := by
  induction entries generalizing log with
  | nil => exact .refl log
  | cons entry entries ih => exact (extends_append log entry).trans (ih (log.append entry))

-- A chained log passes the audit it is published for.
theorem Chained.verifyLog {log : TransparencyLog} (hchained : log.Chained)
    (hcorrect : Signature.Correct) :
    verifyLog log.entries log.heads log.publicKey.toList = true := by
  unfold Operator.verifyLog
  rw [List.all_eq_true]
  intro head hhead
  rw [hchained, List.mem_map] at hhead
  obtain ⟨linked, hlinked, rfl⟩ := hhead
  rw [Bool.and_eq_true, beq_iff_eq]
  exact ⟨List.mem_zipIdx_iff_getElem?.1 hlinked, hcorrect log.seed _⟩

-- An operator that keeps one log hands nobody a fork.
theorem Chained.equivocation_eq_false {log : TransparencyLog} (hchained : log.Chained)
    {first second : SignedHead} (hfirst : first ∈ log.heads) (hsecond : second ∈ log.heads)
    (publicKey : List UInt8) : equivocation first second publicKey = false := by
  rw [hchained, List.mem_map] at hfirst hsecond
  obtain ⟨linked, hlinked, rfl⟩ := hfirst
  obtain ⟨other, hother, rfl⟩ := hsecond
  by_cases hsequence : linked.2 = other.2
  · have hhead := List.mem_zipIdx_iff_getElem?.1 hlinked
    rw [hsequence, List.mem_zipIdx_iff_getElem?.1 hother, Option.some_inj] at hhead
    simp [equivocation, signed, hhead]
  · simp [equivocation, signed, hsequence]

end TransparencyLog

end Chain

end Nymora.Protocol.Operator
