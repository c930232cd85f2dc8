import Nymora.Plonk.Relation.Theorems

namespace Nymora.Plonk

open Nymora.Core
open Nymora.Crypto

theorem decode_toBytes (value : F) : decode (Field.toBytes value) = some value := by
  rw [decode, Field.decode_eq_some, Field.toNatLe_toBytes, Field.fromWitnessBytes_toBytes]
  exact ⟨value.isLt, rfl⟩

section

variable {depth : Nat}

-- A path as the inclusion witness it is the conversion of.
def wirePath (hdepth : depth ≤ 64) (native : Path depth) : Accumulator.Witness depth where
  index := BitString.toNat native.bits
  siblings := native.siblings.map fun sibling => .fromBytes (Field.toBytes sibling)
  length_siblings := by rw [List.length_map, native.length_siblings]
  index_lt := by
    have hlt := BitString.toNat_lt native.bits
    rw [native.length_bits] at hlt
    exact Nat.lt_of_lt_of_le hlt (Nat.pow_le_pow_right (by decide) hdepth)
  index_lt_depth := by
    intro _
    have hlt := BitString.toNat_lt native.bits
    rwa [native.length_bits] at hlt

theorem path_wirePath (hdepth : depth ≤ 64) (native : Path depth) :
    path (wirePath hdepth native) = some native := by
  have hsiblings : decodeSiblings (wirePath hdepth native).siblings = some native.siblings := by
    rw [decodeSiblings_eq_some]
    constructor
    · intro sibling hmem
      obtain ⟨value, -, rfl⟩ := List.mem_map.1 hmem
      rw [Field.toNatLe_toBytes]
      exact value.isLt
    · simp [wirePath, Accumulator.Node.value, Function.comp_def]
  have hbits : ((List.range depth).map fun level =>
      (wirePath hdepth native).index.testBit (level % 64)) = native.bits := by
    apply List.ext_getElem?
    intro level
    by_cases hlevel : level < depth
    · have hbound : level < native.bits.length := by rwa [native.length_bits]
      rw [List.getElem?_map, List.getElem?_range hlevel, Option.map_some,
        Nat.mod_eq_of_lt (Nat.lt_of_lt_of_le hlevel hdepth)]
      simp [wirePath, BitString.testBit_toNat, hbound]
    · rw [List.getElem?_eq_none (by simpa using hlevel),
        List.getElem?_eq_none (by rw [native.length_bits]; omega)]
  obtain ⟨siblings, bits, _, _⟩ := native
  unfold path
  split
  next hnone =>
    rw [hsiblings] at hnone
    cases hnone
  next decoded hdecoded =>
    obtain rfl := Option.some_inj.1 (hdecoded.symm.trans hsiblings)
    simp only [Option.some_inj, Path.mk.injEq, true_and]
    exact hbits

def wireAbsence (hdepth : depth ≤ 64) (native : AbsenceWitness depth) :
    Accumulator.AbsenceWitness depth where
  low := Field.toBytes native.low
  high := Field.toBytes native.high
  witness := wirePath hdepth native.path

theorem absence_wireAbsence (hdepth : depth ≤ 64) (native : AbsenceWitness depth) :
    absence (wireAbsence hdepth native) = some native := by
  simp [absence, wireAbsence, decode_toBytes, path_wirePath]

end

section

variable [Primitives] {depth : Nat}

def wireSignature (native : Signature) : List UInt8 :=
  (Primitives.toBytes native.r).toList ++ (Signature.scalarToBytes native.s).toList

theorem decodePoint_toBytes (hpoints : PointEncoding) (point : SubgroupPoint) :
    decodePoint (Primitives.toBytes point).toList = some point := by
  rw [decodePoint, Bytes.ofList?_toList]
  exact hpoints.fromBytes_toBytes point

theorem decodeSignature_wireSignature (hpoints : PointEncoding) (native : Signature) :
    decodeSignature (wireSignature native) = some native := by
  have hwhole : Bytes.ofList? 64 (wireSignature native) = some
      ((Primitives.toBytes native.r).append (Signature.scalarToBytes native.s)) :=
    Bytes.ofList?_toList ((Primitives.toBytes native.r).append (Signature.scalarToBytes native.s))
  simp [decodeSignature, hwhole, decodePoint_toBytes hpoints, Bytes.ofList?_toList,
    Signature.scalarFromBytes_scalarToBytes]

def wireChain (hdepth : depth ≤ 64) (native : ChainWitness depth) : Circuits.ChainWitness depth where
  epochKey := .new native.epochKeyBytes
  epochPublicKey := (Primitives.toBytes native.epochPublicKey).toList
  epochCertSignature := wireSignature native.epochCertificate
  credentialKey := .new (Field.toBytes native.credentialKey)
  rootOpening := .new (Field.toBytes native.rootOpening)
  rootPublicKey := (Primitives.toBytes native.rootPublicKey).toList
  leafWitness := wirePath hdepth native.classPath
  revocationAbsence := wireAbsence hdepth native.revocationAbsence
  spendAbsence := wireAbsence hdepth native.spendAbsence

theorem chainWitness_wireChain (hpoints : PointEncoding) (hdepth : depth ≤ 64)
    (native : ChainWitness depth) : chainWitness (wireChain hdepth native) = some native := by
  simp [chainWitness, wireChain, decodePoint_toBytes hpoints,
    decodeSignature_wireSignature hpoints, decode_toBytes, path_wirePath, absence_wireAbsence]

def wireMigration (hdepth : depth ≤ 64) (native : MigrationWitness depth) :
    Circuits.MigrationWitness depth where
  oldRootPublicKey := (Primitives.toBytes native.oldRootPublicKey).toList
  oldRootOpening := .new (Field.toBytes native.oldRootOpening)
  credentialKey := .new (Field.toBytes native.credentialKey)
  oldLeafWitness := wirePath hdepth native.oldClassPath
  migrationCertSignature := wireSignature native.migrationCertificate
  successorPublicKey := (Primitives.toBytes native.successorPublicKey).toList
  successorOpening := .new (Field.toBytes native.successorOpening)
  revocationAbsence := wireAbsence hdepth native.revocationAbsence

theorem migrationWitness_wireMigration (hpoints : PointEncoding) (hdepth : depth ≤ 64)
    (native : MigrationWitness depth) :
    migrationWitness (wireMigration hdepth native) = some native := by
  simp [migrationWitness, wireMigration, decodePoint_toBytes hpoints,
    decodeSignature_wireSignature hpoints, decode_toBytes, path_wirePath, absence_wireAbsence]

def wireInbox (native : InboxWitness) : Circuits.InboxWitness where
  rootPublicKey := (Primitives.toBytes native.rootPublicKey).toList
  rootOpening := .new (Field.toBytes native.rootOpening)
  credentialKey := .new (Field.toBytes native.credentialKey)
  inboxCertSignature := wireSignature native.certificate

theorem inboxWitness_wireInbox (hpoints : PointEncoding) (native : InboxWitness) :
    inboxWitness (wireInbox native) = some native := by
  simp [inboxWitness, wireInbox, decodePoint_toBytes hpoints,
    decodeSignature_wireSignature hpoints, decode_toBytes]

end

-- Whether an action's output is derived from the epoch key.
def EpochKeyed (action : Circuits.Action) : Prop :=
  actionTag action = FieldDomain.ActionTag.AUTHORSHIP ∨
    actionTag action = FieldDomain.ActionTag.LIVE_AUTH

instance (action : Circuits.Action) : Decidable (EpochKeyed action) :=
  inferInstanceAs (Decidable (_ ∨ _))

-- An epoch key the circuit takes past the field order: the scalar and the field element its bytes
-- name are two keys.
def Aliased [Primitives] (depth : Nat) (stdLib : CircuitLib) (action : Circuits.Action)
    (inst : ChainInstance) : Prop :=
  EpochKeyed action ∧ ∃ native : ChainWitness depth, (chainRelation depth).Accepts stdLib inst native ∧
    fieldOrder ≤ native.epochKeyBytes.toNatLe

section

variable [Primitives] {stdLib : CircuitLib} {depth : Nat}

theorem chainInstance_actionTag {inputs : Circuits.ChainPublicInputs} {inst : ChainInstance}
    (hinst : chainInstance inputs = some inst) :
    inst.actionTag = Field.ofNat (actionTag inputs.action) := by
  obtain ⟨⟨tag, haction, htag⟩, -⟩ := chainInstance_eq_some.1 hinst
  rw [actionInstance_eq, Option.map_eq_some_iff] at haction
  obtain ⟨output, -, hparts⟩ := haction
  have htagged : actionTag inputs.action = tag := congrArg Prod.fst hparts
  rw [htag, htagged]

-- Where the output takes the credential key, an alias of the epoch key may be canonicalized.
theorem canonical_of_not_epochKeyed (hstd : stdLib.Documented) {action : Circuits.Action}
    {inst : ChainInstance} {native : ChainWitness depth}
    (haction : inst.actionTag = Field.ofNat (actionTag action)) (hkeyed : ¬ EpochKeyed action)
    (haccepts : (chainRelation depth).Accepts stdLib inst native) :
    ∃ epochKey, ChainClauses epochKey
        { native with epochKeyBytes := Signature.scalarToBytes epochKey } inst ∧
      native.revocationAbsence.high.val < 2 ^ 253 ∧ native.spendAbsence.high.val < 2 ^ 253 := by
  rw [Relation.accepts_iff (chainRelation_law hstd) chainRelation_formatInstance_inj] at haccepts
  obtain ⟨-, hcorrespondence, hcertified, hincluded, hrevocation, hspend, htag, houtput⟩ := haccepts
  have hauthorship : inst.actionTag ≠ Field.ofNat FieldDomain.ActionTag.AUTHORSHIP := by
    rw [haction, ne_eq, ofNat_eq_ofNat (actionTag_lt action) (by decide)]
    exact fun hsame => hkeyed (Or.inl hsame)
  have hliveAuth : inst.actionTag ≠ Field.ofNat FieldDomain.ActionTag.LIVE_AUTH := by
    rw [haction, ne_eq, ofNat_eq_ofNat (actionTag_lt action) (by decide)]
    exact fun hsame => hkeyed (Or.inr hsame)
  refine ⟨Fin.ofNat jubjubOrder native.epochKeyBytes.toNatLe, ?_, hrevocation.2, hspend.2⟩
  exact {
    canonical := Signature.scalarFromBytes_scalarToBytes _
    correspondence := hcorrespondence
    certified := hcertified
    included := hincluded
    unrevoked := hrevocation.1
    unspent := hspend.1
    action := by
      rw [satisfiesAction_iff_selected]
      simp only [hauthorship, hliveAuth, decide_false, Bool.or_false, Bool.false_eq_true, if_false]
        at houtput ⊢
      exact ⟨htag, houtput⟩ }

end

-- The proving library's contract for one statement: what its circuit accepts has a proof, and
-- what has a proof some witness is accepted for.
structure Keys.Realizes [Primitives] {Instance Witness : Type} (keys : Keys Instance Witness)
    (relation : Relation Instance Witness) (stdLib : CircuitLib) : Prop where
  complete : ∀ inst witness, relation.Accepts stdLib inst witness →
    ∃ proof, keys.prove inst witness = some proof ∧ keys.verify inst proof = true
  sound : ∀ inst proof, keys.verify inst proof = true →
    ∃ witness, relation.Accepts stdLib inst witness

structure Backend.Realizes [Primitives] {depth : Nat} (backend : Backend depth)
    (stdLib : CircuitLib) : Prop where
  chain : backend.chain.Realizes (chainRelation depth) stdLib
  migration : backend.migration.Realizes (migrationRelation depth) stdLib
  inbox : backend.inbox.Realizes inboxRelation stdLib

theorem verifyConverted_eq_true {Instance Witness : Type} {keys : Keys Instance Witness}
    {inst : Option Instance} {proof : List UInt8} :
    verifyConverted keys inst proof = true ↔
      ∃ converted, inst = some converted ∧ keys.verify converted proof = true := by
  cases inst with
  | none => simp [verifyConverted]
  | some converted => simp [verifyConverted]

-- One statement through the trait: what its evaluator and its circuit both take is proved, and
-- the proof is accepted.
theorem proveConverted_complete [Primitives] {Instance Witness : Type}
    {satisfies : Witness → Instance → Bool} {keys : Keys Instance Witness}
    {relation : Relation Instance Witness} {stdLib : CircuitLib}
    (hkeys : keys.Realizes relation stdLib) {inst : Instance} {witness : Witness}
    (hsatisfies : satisfies witness inst = true) (haccepts : relation.Accepts stdLib inst witness) :
    ∃ proof, proveConverted satisfies keys (some inst) (some witness) = .ok proof ∧
      verifyConverted keys (some inst) proof = true := by
  obtain ⟨proof, hprove, hverify⟩ := hkeys.complete inst witness haccepts
  refine ⟨proof, ?_, hverify⟩
  simp only [proveConverted, proveSatisfied, hsatisfies, hprove, not_true_eq_false, if_false]
  rfl

section

variable [Primitives] {depth : Nat} {backend : Backend depth} {stdLib : CircuitLib}

-- What the stub's statements hold of, the real backend proves, where it can take it.
theorem prove_of_chainHolds (hpoints : PointEncoding) (hstd : stdLib.Documented)
    (hrealizes : backend.Realizes stdLib) {witness : Circuits.ChainWitness depth}
    {inputs : Circuits.ChainPublicInputs} (hwitness : (chainWitness witness).isSome)
    (hinputs : (chainInstance inputs).isSome)
    (hholds : Circuits.chainHolds witness inputs = true) :
    ∃ proof, backend.proofSystem.prove witness inputs = .ok proof ∧
      backend.proofSystem.verify proof inputs = true := by
  obtain ⟨native, hnative⟩ := Option.isSome_iff_exists.1 hwitness
  obtain ⟨inst, hinst⟩ := Option.isSome_iff_exists.1 hinputs
  have hclauses := (chainHolds_iff_clauses hpoints hnative hinst).1 hholds
  have haccepts := ((chainRelation_accepts hstd).2 hclauses).1
  have hsatisfies := satisfiesChain_iff.2 hclauses.1
  have hproved := proveConverted_complete hrealizes.chain hsatisfies haccepts
  rw [← hnative, ← hinst] at hproved
  exact hproved

theorem prove_of_migrationHolds (hstd : stdLib.Documented) (hrealizes : backend.Realizes stdLib)
    {witness : Circuits.MigrationWitness depth} {inputs : Circuits.MigrationPublicInputs}
    (hwitness : (migrationWitness witness).isSome) (hinputs : (migrationInstance inputs).isSome)
    (hholds : Circuits.migrationHolds witness inputs = true) :
    ∃ proof, backend.proofSystem.proveMigration witness inputs = .ok proof ∧
      backend.proofSystem.verifyMigration proof inputs = true := by
  obtain ⟨native, hnative⟩ := Option.isSome_iff_exists.1 hwitness
  obtain ⟨inst, hinst⟩ := Option.isSome_iff_exists.1 hinputs
  have hclauses := (migrationHolds_iff_clauses hnative hinst).1 hholds
  have hproved := proveConverted_complete hrealizes.migration
    (satisfiesMigration_iff.2 hclauses.1) ((migrationRelation_accepts hstd).2 hclauses)
  rw [← hnative, ← hinst] at hproved
  exact hproved

theorem prove_of_inboxHolds (hstd : stdLib.Documented) (hrealizes : backend.Realizes stdLib)
    {witness : Circuits.InboxWitness} {inputs : Circuits.InboxPublicInputs}
    (hwitness : (inboxWitness witness).isSome) (hinputs : (inboxInstance inputs).isSome)
    (hholds : Circuits.inboxHolds witness inputs = true) :
    ∃ proof, backend.proofSystem.proveInbox witness inputs = .ok proof ∧
      backend.proofSystem.verifyInbox proof inputs = true := by
  obtain ⟨native, hnative⟩ := Option.isSome_iff_exists.1 hwitness
  obtain ⟨inst, hinst⟩ := Option.isSome_iff_exists.1 hinputs
  have hsatisfies : satisfiesInbox native inst = true := by
    rw [inbox_agrees hnative hinst]
    exact hholds
  have hproved := proveConverted_complete hrealizes.inbox hsatisfies
    ((inboxRelation_accepts hstd).2 hsatisfies)
  rw [← hnative, ← hinst] at hproved
  exact hproved

end

-- The real backend proves whatever the stub's statement holds of, and what it accepts the stub's
-- statement holds of under some witness. Only an epoch-keyed action has another way in: an epoch
-- key past the field order.
theorem backend_realizes_the_stub [Primitives] (hpoints : PointEncoding) (stdLib : CircuitLib)
    (hstd : stdLib.Documented) (depth : Nat) (hdepth : depth ≤ 64) (backend : Backend depth)
    (hrealizes : backend.Realizes stdLib) :
    ((∀ witness inputs, (chainWitness witness).isSome → (chainInstance inputs).isSome →
        Circuits.chainHolds witness inputs = true →
        ∃ proof, backend.proofSystem.prove witness inputs = .ok proof ∧
          backend.proofSystem.verify proof inputs = true) ∧
      ∀ proof inputs, backend.proofSystem.verify proof inputs = true →
        (∃ witness : Circuits.ChainWitness depth, Circuits.chainHolds witness inputs = true) ∨
          ∃ inst, chainInstance inputs = some inst ∧
            Aliased depth stdLib inputs.action inst) ∧
    ((∀ witness inputs, (migrationWitness witness).isSome → (migrationInstance inputs).isSome →
        Circuits.migrationHolds witness inputs = true →
        ∃ proof, backend.proofSystem.proveMigration witness inputs = .ok proof ∧
          backend.proofSystem.verifyMigration proof inputs = true) ∧
      ∀ proof inputs, backend.proofSystem.verifyMigration proof inputs = true →
        ∃ witness : Circuits.MigrationWitness depth, Circuits.migrationHolds witness inputs = true) ∧
    ((∀ witness inputs, (inboxWitness witness).isSome → (inboxInstance inputs).isSome →
        Circuits.inboxHolds witness inputs = true →
        ∃ proof, backend.proofSystem.proveInbox witness inputs = .ok proof ∧
          backend.proofSystem.verifyInbox proof inputs = true) ∧
      ∀ proof inputs, backend.proofSystem.verifyInbox proof inputs = true →
        ∃ witness, Circuits.inboxHolds witness inputs = true) := by
  refine ⟨⟨?_, ?_⟩, ⟨?_, ?_⟩, ⟨?_, ?_⟩⟩
  · intro witness inputs hwitness hinputs hholds
    exact prove_of_chainHolds hpoints hstd hrealizes hwitness hinputs hholds
  · intro proof inputs hverify
    obtain ⟨inst, hinst, hproof⟩ := verifyConverted_eq_true.1 hverify
    obtain ⟨native, haccepts⟩ := hrealizes.chain.sound inst proof hproof
    by_cases hbytes : native.epochKeyBytes.toNatLe < fieldOrder
    · left
      refine ⟨wireChain hdepth native, ?_⟩
      rw [chainHolds_iff_clauses hpoints (chainWitness_wireChain hpoints hdepth native) hinst]
      exact (chainRelation_accepts hstd).1 ⟨haccepts, hbytes⟩
    · by_cases hkeyed : EpochKeyed inputs.action
      · exact Or.inr ⟨inst, hinst, hkeyed, native, haccepts, Nat.le_of_not_lt hbytes⟩
      · left
        obtain ⟨epochKey, hclauses, hranges⟩ := canonical_of_not_epochKeyed hstd
          (chainInstance_actionTag hinst) hkeyed haccepts
        refine ⟨wireChain hdepth
          { native with epochKeyBytes := Signature.scalarToBytes epochKey }, ?_⟩
        rw [chainHolds_iff_clauses hpoints (chainWitness_wireChain hpoints hdepth _) hinst]
        exact ⟨⟨epochKey, hclauses⟩, hranges⟩
  · intro witness inputs hwitness hinputs hholds
    exact prove_of_migrationHolds hstd hrealizes hwitness hinputs hholds
  · intro proof inputs hverify
    obtain ⟨inst, hinst, hproof⟩ := verifyConverted_eq_true.1 hverify
    obtain ⟨native, haccepts⟩ := hrealizes.migration.sound inst proof hproof
    refine ⟨wireMigration hdepth native, ?_⟩
    rw [migrationHolds_iff_clauses (migrationWitness_wireMigration hpoints hdepth native) hinst]
    exact (migrationRelation_accepts hstd).1 haccepts
  · intro witness inputs hwitness hinputs hholds
    exact prove_of_inboxHolds hstd hrealizes hwitness hinputs hholds
  · intro proof inputs hverify
    obtain ⟨inst, hinst, hproof⟩ := verifyConverted_eq_true.1 hverify
    obtain ⟨native, haccepts⟩ := hrealizes.inbox.sound inst proof hproof
    refine ⟨wireInbox native, ?_⟩
    rw [← inbox_agrees (inboxWitness_wireInbox hpoints native) hinst]
    exact (inboxRelation_accepts hstd).1 haccepts

end Nymora.Plonk

namespace Nymora.Plonk.Relation.Sample

open Nymora.Crypto
open Nymora.Plonk.Evaluate.Sample
open scoped Nymora.Crypto.Reference

-- A prover that proves what the circuit accepts, and a verifier that takes what has a witness.
open Classical in
noncomputable def idealKeys {Instance Witness : Type} (relation : Relation Instance Witness) :
    Keys Instance Witness where
  prove inst witness := if relation.Accepts .reference inst witness then some [1] else none
  verify inst _ := if ∃ witness, relation.Accepts .reference inst witness then true else false

theorem idealKeys_realizes {Instance Witness : Type} (relation : Relation Instance Witness) :
    (idealKeys relation).Realizes relation .reference where
  complete inst witness haccepts := ⟨[1], if_pos haccepts, if_pos ⟨witness, haccepts⟩⟩
  sound inst proof hverify := by
    by_cases hsome : ∃ witness, relation.Accepts .reference inst witness
    · exact hsome
    · simp [idealKeys, hsome] at hverify

noncomputable def idealBackend : Backend 1 where
  chain := idealKeys (chainRelation 1)
  migration := idealKeys (migrationRelation 1)
  inbox := idealKeys inboxRelation

theorem idealBackend_realizes : idealBackend.Realizes .reference :=
  ⟨idealKeys_realizes _, idealKeys_realizes _, idealKeys_realizes _⟩

theorem backend_realizes_the_stub_honest :
    ∃ proof, idealBackend.proofSystem.prove
        (Circuits.Soundness.Sample.witness Circuits.Soundness.Sample.credential) accessing =
          .ok proof ∧
      idealBackend.proofSystem.verify proof accessing = true :=
  (backend_realizes_the_stub pointEncoding .reference CircuitLib.reference_documented 1 (by decide)
    idealBackend idealBackend_realizes).1.1 _ _ honest_converts.1 honest_converts.2
      (by decide +kernel)

end Nymora.Plonk.Relation.Sample
