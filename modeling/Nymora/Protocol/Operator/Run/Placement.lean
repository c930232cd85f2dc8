import Nymora.Protocol.Operator.Run.Promise

namespace Nymora.Protocol.Operator.AgoraState

open Nymora.Core
open Nymora.Crypto
open Nymora.Accumulator
open Nymora.Circuits
open Nymora.Proofs
open Std (ExtTreeMap ExtTreeSet)

variable {depth : Nat} {system : ProofSystem depth}

-- In every class the landed leaves are recorded where they stand.
def Placed (state : AgoraState depth) : Prop :=
  ∀ (policyClass : PolicyClass) (entry : ClassState depth),
    state.classes[policyClass]? = some entry → entry.Located

-- A class the founder entered at most once records it where it stands.
theorem Founded.located {founder : Commitment} {landings : Nat} {entry : ClassState depth}
    (hfounded : Founded founder landings entry) (honce : landings ≤ 1) : entry.Located := by
  intro index leaf hoccupies
  obtain ⟨hindex, hleaf⟩ := hoccupies
  have hzero : index = 0 := by
    rw [hfounded.occupied] at hindex
    omega
  subst hzero
  obtain ⟨known, hknown, hslot⟩ := entry.known 0 hindex
  obtain rfl : known = leaf := Option.some_inj.1 (hslot.symm.trans hleaf)
  obtain ⟨position, hposition⟩ :=
    Option.isSome_iff_exists.1 (ExtTreeMap.mem_iff_isSome_getElem?.1 hknown)
  obtain ⟨place, hplace, rfl, _⟩ := entry.placed known position hposition
  rw [hfounded.occupied] at hplace
  rw [hposition, show place = 0 by omega]

theorem Fresh.placed {founding : Founding} {created : AgoraState depth}
    (hfresh : Fresh founding created) (hnodup : founding.founderClasses.Nodup) :
    Placed created := by
  intro policyClass entry hentry
  exact (hfresh.founded policyClass entry hentry).located (List.nodup_iff_count_le_one.1 hnodup _)

variable [Primitives] {before after start state : AgoraState depth} {history : History system}

theorem Course.placed (hcourse : Course before after) (hprovisioned : before.Provisioned)
    (hplaced : Placed before) : Placed after := by
  have hready : ∀ {ready : AgoraState depth}, Ready before ready → Placed ready := by
    intro ready hready policyClass entry hentry
    rw [hready.quiet.classes] at hentry
    exact hplaced policyClass entry hentry
  cases hcourse with
  | quiet hquiet =>
      intro policyClass entry hentry
      rw [hquiet.classes] at hentry
      exact hplaced policyClass entry hentry
  | @policy ready changed entry _ _ hwithin hentry =>
      intro policyClass later hlater
      simp only [withPolicy, ExtTreeMap.getElem?_insert, Std.compare_eq_iff_eq] at hlater
      by_cases heq : changed = policyClass
      · rw [if_pos heq, Option.some_inj] at hlater
        rw [← hlater]
        exact hready hwithin changed entry hentry
      · rw [if_neg heq] at hlater
        exact hready hwithin policyClass later hlater
  | dissolution hwithin =>
      have hcarried := hready hwithin
      exact hcarried
  | inboxHorizon hwithin =>
      have hcarried := hready hwithin
      exact hcarried
  | @boundary ready _ _ _ hwithin hboundary =>
      intro policyClass later hlater
      have hprovided : ready.Provisioned :=
        hprovisioned.congr hwithin.quiet.classes hwithin.admissions
      cases hentry : ready.classes[policyClass]? with
      | none =>
          rw [hboundary.unconfigured policyClass hentry] at hlater
          cases hlater
      | some entry =>
          obtain ⟨landed, hlanded, hlands⟩ := hboundary.lands policyClass entry hentry
          obtain rfl : later = landed := Option.some_inj.1 (hlater.symm.trans hlanded)
          refine hlands.located (hready hwithin policyClass entry hentry) ?_
            (hprovided.nodup_stagedFor policyClass)
          intro leaf hleaf
          exact hprovided.unlanded policyClass entry leaf hentry (mem_stagedFor.1 hleaf)

theorem Execution.placed (hexecution : Execution system start history state)
    (hsound : start.Sound) (hplaced : Placed start) : Placed state :=
  hexecution.preserves hsound hplaced fun _ _ hbefore hcourse hearlier =>
    hcourse.placed hbefore.provisioned hearlier

-- In every run every class holds its leaves at most once exactly when the founding names no
-- class twice: nothing after the founding lands a leaf again.
theorem leaves_land_at_most_once {founding : Founding} {tagSecret statementEntropy : Bytes 32}
    {logSeed : Option (Bytes 32)} {created : AgoraState depth} (hdepth : 1 ≤ depth)
    (hcreate : create founding tagSecret statementEntropy logSeed = .ok created)
    (hexecution : Execution system created history state) :
    (∀ (policyClass : PolicyClass) (entry : ClassState depth),
      state.classes[policyClass]? = some entry → entry.AtMostOnce) ↔
        founding.founderClasses.Nodup := by
  have hfresh := fresh_of_create hcreate
  constructor
  · intro honce
    rw [List.nodup_iff_count_le_one]
    intro policyClass
    by_contra hcount
    have htwice : 1 < founding.founderClasses.count policyClass := by omega
    obtain ⟨classes, _, hconfigured, _, hcreated⟩ := opening_of_create hcreate
    obtain ⟨entry, hentry⟩ := Option.isSome_iff_exists.1 (ExtTreeMap.mem_iff_isSome_getElem?.1
      (hconfigured policyClass (List.count_pos_iff.1 (by omega))))
    have hstands : ∀ index < 2, Stands state policyClass (positionOf index) founding.founder := by
      intro index hindex
      have hclass : created.classes[policyClass]? = some entry := by
        rw [hcreated]
        exact hentry
      refine hexecution.stands hfresh.sound ⟨entry, hclass, ?_⟩
      exact (hfresh.founded policyClass entry hclass).leaves index (by omega)
    obtain ⟨stood, hstood, hfirst⟩ := hstands 0 (by omega)
    obtain ⟨other, hother, hsecond⟩ := hstands 1 (by omega)
    obtain rfl : stood = other := Option.some_inj.1 (hstood.symm.trans hother)
    have hsame := (honce policyClass stood hstood).single 0 1 _ hfirst hsecond
    omega
  · intro hnodup policyClass entry hentry
    exact (hexecution.placed hfresh.sound (hfresh.placed hnodup) policyClass entry
      hentry).atMostOnce hdepth

end Nymora.Protocol.Operator.AgoraState

namespace Nymora.Protocol.Operator.AgoraState.Sample

open Nymora.Core
open Nymora.Crypto
open scoped Nymora.Crypto.Reference

theorem leaves_land_at_most_once_vouched :
    (∀ (policyClass : PolicyClass) (entry : ClassState 2),
      vouched.classes[policyClass]? = some entry → entry.AtMostOnce) ↔
        founding.founderClasses.Nodup :=
  leaves_land_at_most_once (by decide) create_start (execution_played vouching)

-- A founding that names the members twice.
def doubling : Founding := { founding with founderClasses := [members, members] }

theorem doubles :
    (create doubling entropy entropy none : Except _ (AgoraState 2)).toOption.isSome := by
  decide +kernel

def doubled : AgoraState 2 := (create doubling entropy entropy none).toOption.get doubles

theorem doubled_members : doubled.classes[members]?.isSome := by decide +kernel

theorem founder_lands_twice :
    create doubling entropy entropy none = .ok doubled ∧
      ∃ entry, doubled.classes[members]? = some entry ∧ ¬ entry.AtMostOnce := by
  refine ⟨eq_ok_get doubles, doubled.classes[members]?.get doubled_members,
    (Option.some_get _).symm, ?_⟩
  intro honce
  have hsame := honce.single 0 1 founder (by decide +kernel) (by decide +kernel)
  omega

end Nymora.Protocol.Operator.AgoraState.Sample
