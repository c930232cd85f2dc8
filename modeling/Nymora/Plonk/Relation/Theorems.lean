import Nymora.Crypto.Field.Prime
import Nymora.Plonk.Evaluate.Theorems
import Nymora.Plonk.Relation

namespace Nymora.Plonk

open Nymora.Core
open Nymora.Crypto
open Constrained

theorem add_neg_ofNat_eq_zero {value : F} {constant : Nat} :
    value + -Field.ofNat constant = 0 ↔ value = Field.ofNat constant := add_neg_eq_zero

section

variable [Primitives] {stdLib : CircuitLib} (hstd : stdLib.Documented) {depth : Nat}
include hstd

theorem computes_assignPath (path : Path depth) :
    (assignPath stdLib path).Computes ⟨path.siblings, path.bits⟩ := by
  refine Computes.bind (hstd.assignManyNative _) ?_
  refine Computes.bind (hstd.assignManyBits _) ?_
  exact computes_pure _

theorem computes_merkleRoot (leaf : F) (path : Path depth) :
    (merkleRoot stdLib leaf ⟨path.siblings, path.bits⟩).Computes (path.root leaf) := by
  refine computes_foldlM ?_ _ _
  intro current level
  obtain ⟨sibling, bit⟩ := level
  refine Computes.bind (hstd.condSwap _ _ _) ?_
  cases bit with
  | false => exact hstd.poseidon [current, sibling]
  | true => exact hstd.poseidon [sibling, current]

theorem computes_truncateKeyGadget (value : F) :
    (truncateKeyGadget stdLib value).Computes (truncateKey value) := by
  have htruncated : Field.ofNat (BitString.toNat
      ((BitString.ofNat NUM_BITS value.val).take KEY_BITS)) = truncateKey value := by
    apply Fin.ext
    rw [BitString.toNat_take_ofNat (by decide), truncateKey_val]
    exact Nat.mod_eq_of_lt (Nat.lt_trans (Nat.mod_lt _ (by decide)) (by decide))
  refine Computes.bind (hstd.assignedToLeBits _) ?_
  rw [← htruncated]
  exact hstd.assignedFromLeBits _

-- A comparison constrained to hold.
theorem asserts_lowerThan (x y : F) (bound : Nat) {rest : Constrained Unit} {later : Prop}
    (hrest : rest.Asserts later) :
    (do
      let lower ← stdLib.lowerThan x y bound
      stdLib.assertBitEqualToFixed lower true
      rest : Constrained Unit).Asserts
      ((x.val < 2 ^ bound ∧ y.val < 2 ^ bound) ∧ x.val < y.val ∧ later) := by
  refine Yields.bind (hstd.lowerThan _ _ _) ?_
  refine Yields.bind (Yields.congr (hstd.assertBitEqualToFixed _ _) ?_) hrest
  exact decide_eq_true_iff

theorem asserts_assertAbsent (key : F) (witness : AbsenceWitness depth) (root : F) :
    (assertAbsent stdLib key witness root).Asserts
      (GapAround key witness root ∧ witness.high.val < 2 ^ 253) := by
  refine Yields.congr (Computes.bind (hstd.assign _) (Computes.bind (hstd.assign _)
    (Computes.bind (computes_assignPath hstd _) (Computes.bind (computes_truncateKeyGadget hstd _)
      (asserts_lowerThan hstd _ _ _ (asserts_lowerThan hstd _ _ _
        (Computes.bind (hstd.assignFixed _) (Computes.bind (hstd.poseidon _)
          (Computes.bind (computes_merkleRoot hstd _ _) (hstd.assertEqual _ _))))))))) ) ?_
  rw [truncateKey_val]
  constructor
  · rintro ⟨-, hlow, ⟨-, hrange⟩, hhigh, hincluded⟩
    exact ⟨⟨hlow, hhigh, hincluded⟩, hrange⟩
  · rintro ⟨hgap, hrange⟩
    have hbound : key.val % 2 ^ 253 < 2 ^ 253 := Nat.mod_lt _ (by decide)
    exact ⟨⟨Nat.lt_trans hgap.low hbound, hbound⟩, hgap.low, ⟨hbound, hrange⟩, hgap.high,
      hgap.included⟩

theorem computes_revocationEntryGadget (leaf : F) :
    (revocationEntryGadget stdLib leaf).Computes (revocationEntry leaf) :=
  Computes.bind (hstd.assignFixed _) (hstd.poseidon _)

-- A product with one factor for each admitted value vanishes on those values alone: the field
-- has no zero divisors.
theorem asserts_assertInboxAction (action : F) :
    (assertInboxAction stdLib action).Asserts
      (action = Field.ofNat FieldDomain.InboxAction.RETIRE ∨
        action = Field.ofNat FieldDomain.InboxAction.RENEW) := by
  refine Yields.congr (Computes.bind (hstd.addConstant _ _) (Computes.bind (hstd.mul _ _)
    (hstd.assertEqualToFixed _ _))) ?_
  rw [show Field.ofNat 0 = (0 : F) from rfl, Field.mul_eq_zero, add_neg_ofNat_eq_zero]
  rfl

theorem asserts_assertActionTag (tag : F) :
    (assertActionTag stdLib tag).Asserts (∃ value < 5, tag = Field.ofNat value) := by
  have hproduct : ([1, 2, 3, 4].foldlM (fun product shift => do
      let term ← stdLib.addConstant tag (-Field.ofNat shift)
      stdLib.mul product term) tag : Constrained F).Computes
        ([1, 2, 3, 4].foldl (fun product shift => product * (tag + -Field.ofNat shift)) tag) := by
    refine computes_foldlM ?_ _ _
    intro product shift
    exact Computes.bind (hstd.addConstant _ _) (hstd.mul _ _)
  refine Yields.congr (Computes.bind hproduct (hstd.assertEqualToFixed _ _)) ?_
  simp only [List.foldl_cons, List.foldl_nil, show Field.ofNat 0 = (0 : F) from rfl,
    Field.mul_eq_zero, add_neg_ofNat_eq_zero]
  constructor
  · rintro ((((hzero | hone) | htwo) | hthree) | hfour)
    · exact ⟨0, by decide, hzero⟩
    · exact ⟨1, by decide, hone⟩
    · exact ⟨2, by decide, htwo⟩
    · exact ⟨3, by decide, hthree⟩
    · exact ⟨4, by decide, hfour⟩
  · rintro ⟨value, hvalue, rfl⟩
    have hcases : value = 0 ∨ value = 1 ∨ value = 2 ∨ value = 3 ∨ value = 4 := by omega
    rcases hcases with rfl | rfl | rfl | rfl | rfl
    · exact Or.inl (Or.inl (Or.inl (Or.inl rfl)))
    · exact Or.inl (Or.inl (Or.inl (Or.inr rfl)))
    · exact Or.inl (Or.inl (Or.inr rfl))
    · exact Or.inl (Or.inr rfl)
    · exact Or.inr rfl

theorem computes_actionSelectors (tag : F) :
    (actionSelectors stdLib tag).Computes
      (decide (tag = Field.ofNat FieldDomain.ActionTag.AUTHORSHIP) ||
          decide (tag = Field.ofNat FieldDomain.ActionTag.LIVE_AUTH),
        decide (tag = Field.ofNat FieldDomain.ActionTag.VERIFICATION)) := by
  refine Computes.bind (hstd.isEqualToFixed _ _) ?_
  refine Computes.bind (hstd.isEqualToFixed _ _) ?_
  refine Computes.bind (hstd.or _) ?_
  refine Computes.bind (hstd.isEqualToFixed _ _) ?_
  simp only [List.any_cons, List.any_nil, Bool.or_false, id]
  exact computes_pure _

theorem computes_assignSignature (signature : Signature) :
    (assignSignature stdLib signature).Computes ⟨signature.r, signature.s⟩ := by
  refine Computes.bind (hstd.assignPoint _) ?_
  refine Computes.bind (hstd.assignScalar _) ?_
  exact computes_pure _

theorem computes_scalarFromLeBytes (value : F) :
    (stdLib.scalarFromLeBytes (Field.toBytes value)).Computes (Signature.reduce value) := by
  refine ⟨iff_true_intro (hstd.scalarFromLeBytes_satisfied _), fun _ => ?_⟩
  rw [hstd.scalarFromLeBytes_value, Field.toNatLe_toBytes]
  rfl

theorem asserts_verifyCertificate (signature : Signature) (pk : SubgroupPoint) (message : F) :
    (verifyCertificate stdLib ⟨signature.r, signature.s⟩ pk message).Asserts
      (verify signature pk message = true) := by
  refine Yields.congr (Computes.bind (hstd.poseidon _) (Computes.bind (hstd.assignedToLeBytes _)
    (Computes.bind (computes_scalarFromLeBytes hstd _) (Computes.bind (hstd.assignFixedPoint _)
      (Computes.bind (hstd.msm _ _) (Computes.bind (hstd.msm _ _) (Computes.bind (hstd.add _ _)
        (hstd.assertEqualPoint _ _)))))))) ?_
  simp only [hstd.xCoordinate, hstd.yCoordinate]
  exact decide_eq_true_iff.symm

-- The scalar in both its forms, of bytes the library bounds after reduction.
theorem yields_assignCanonicalScalar (bytes : Bytes 32) :
    (assignCanonicalScalar stdLib.toZkStdLib bytes).Yields (bytes.toNatLe % fieldOrder < jubjubOrder)
      (Fin.ofNat jubjubOrder bytes.toNatLe, Fin.ofNat fieldOrder bytes.toNatLe) :=
  ⟨assignCanonicalScalar_satisfied hstd.toDocumented bytes,
    fun _ => assignCanonicalScalar_value hstd.toDocumented bytes⟩

end

theorem ofNat_eq_ofNat {left right : Nat} (hleft : left < 5) (hright : right < 5) :
    Field.ofNat left = Field.ofNat right ↔ left = right :=
  ⟨Field.ofNat_inj (Nat.lt_trans hleft (by decide)) (Nat.lt_trans hright (by decide)),
    fun hsame => hsame ▸ rfl⟩

-- The evaluator looks the tag up and branches; the circuit multiplies out and selects.
theorem satisfiesAction_iff_selected (epochKey : JubjubScalar) (credentialKey : F)
    (inst : ChainInstance) :
    satisfiesAction epochKey credentialKey inst = true ↔
      (∃ value < 5, inst.actionTag = Field.ofNat value) ∧
        (if decide (inst.actionTag = Field.ofNat FieldDomain.ActionTag.VERIFICATION) then
            Field.ofNat 0
          else Poseidon.hash [Field.ofNat FieldDomain.ACTION, inst.actionTag,
            if decide (inst.actionTag = Field.ofNat FieldDomain.ActionTag.AUTHORSHIP) ||
                decide (inst.actionTag = Field.ofNat FieldDomain.ActionTag.LIVE_AUTH) then
              Signature.scalarAsField epochKey
            else credentialKey, inst.actionContext, inst.agora]) = inst.actionOutput := by
  by_cases htag : ∃ value < 5, inst.actionTag = Field.ofNat value
  · obtain ⟨value, hvalue, htagged⟩ := htag
    have hauthorship : inst.actionTag = Field.ofNat FieldDomain.ActionTag.AUTHORSHIP ↔
        value = FieldDomain.ActionTag.AUTHORSHIP := by
      rw [htagged, ofNat_eq_ofNat hvalue (by decide)]
    have hliveAuth : inst.actionTag = Field.ofNat FieldDomain.ActionTag.LIVE_AUTH ↔
        value = FieldDomain.ActionTag.LIVE_AUTH := by
      rw [htagged, ofNat_eq_ofNat hvalue (by decide)]
    have hverification : inst.actionTag = Field.ofNat FieldDomain.ActionTag.VERIFICATION ↔
        value = FieldDomain.ActionTag.VERIFICATION := by
      rw [htagged, ofNat_eq_ofNat hvalue (by decide)]
    have hfound : ((List.range 5).find? fun other => inst.actionTag = Field.ofNat other) =
        some value := by
      rw [htagged]
      exact find_tag hvalue
    simp only [satisfiesAction, hfound, hauthorship, hliveAuth, hverification, decide_eq_true_eq,
      Bool.or_eq_true]
    exact ⟨fun houtput => ⟨⟨value, hvalue, htagged⟩, houtput⟩, fun hboth => hboth.2⟩
  · have hmissing : ((List.range 5).find? fun other => inst.actionTag = Field.ofNat other) =
        none := by
      rw [List.find?_eq_none]
      intro value hmem
      rw [decide_eq_true_eq]
      intro htagged
      exact htag ⟨value, List.mem_range.1 hmem, htagged⟩
    simp only [satisfiesAction, hmissing, htag, false_and, Bool.false_eq_true]

section

variable [Primitives] {stdLib : CircuitLib} (hstd : stdLib.Documented) {depth : Nat}
include hstd

theorem chainRelation_law (inst : ChainInstance) (witness : ChainWitness depth) :
    ((chainRelation depth).circuit stdLib inst witness).Law
      ((chainRelation depth).formatInstance inst)
      (witness.epochKeyBytes.toNatLe % fieldOrder < jubjubOrder ∧
        publicKey (Fin.ofNat jubjubOrder witness.epochKeyBytes.toNatLe) =
          witness.epochPublicKey ∧
        verify witness.epochCertificate witness.rootPublicKey
          (Poseidon.hash [Field.ofNat FieldDomain.EPOCH_CERT, inst.agora, inst.epoch,
            (Primitives.coordinates witness.epochPublicKey).1,
            (Primitives.coordinates witness.epochPublicKey).2]) = true ∧
        witness.classPath.root (openedLeaf witness.rootPublicKey witness.credentialKey
          witness.rootOpening inst.agora) = inst.classRoot ∧
        (GapAround (revocationEntry (openedLeaf witness.rootPublicKey witness.credentialKey
            witness.rootOpening inst.agora)) witness.revocationAbsence inst.revocationRoot ∧
          witness.revocationAbsence.high.val < 2 ^ 253) ∧
        (GapAround (spendOf witness.credentialKey (openedLeaf witness.rootPublicKey
            witness.credentialKey witness.rootOpening inst.agora) inst.agora)
            witness.spendAbsence inst.spendRoot ∧
          witness.spendAbsence.high.val < 2 ^ 253) ∧
        (∃ value < 5, inst.actionTag = Field.ofNat value) ∧
        (if decide (inst.actionTag = Field.ofNat FieldDomain.ActionTag.VERIFICATION) then
            Field.ofNat 0
          else Poseidon.hash [Field.ofNat FieldDomain.ACTION, inst.actionTag,
            if decide (inst.actionTag = Field.ofNat FieldDomain.ActionTag.AUTHORSHIP) ||
                decide (inst.actionTag = Field.ofNat FieldDomain.ActionTag.LIVE_AUTH) then
              Fin.ofNat fieldOrder witness.epochKeyBytes.toNatLe
            else witness.credentialKey, inst.actionContext, inst.agora]) = inst.actionOutput) := by
  refine (hstd.assignAsPublicInput _).bind ?_
  refine (hstd.assignAsPublicInput _).bind ?_
  refine (hstd.assignAsPublicInput _).bind ?_
  refine (hstd.assignAsPublicInput _).bind ?_
  refine (hstd.assignAsPublicInput _).bind ?_
  refine (hstd.assignAsPublicInput _).bind ?_
  refine (hstd.assignAsPublicInput _).bind ?_
  refine (hstd.assignAsPublicInput _).bind ?_
  refine Synthesis.law_lift ?_
  refine Yields.bind (yields_assignCanonicalScalar hstd _) ?_
  refine Computes.bind (hstd.assignPoint _) ?_
  refine Computes.bind (computes_assignSignature hstd _) ?_
  refine Computes.bind (hstd.assign _) ?_
  refine Computes.bind (hstd.assign _) ?_
  refine Computes.bind (hstd.assignPoint _) ?_
  refine Computes.bind (computes_assignPath hstd _) ?_
  -- Correspondence.
  refine Computes.bind (hstd.assignFixedPoint _) ?_
  refine Computes.bind (hstd.msm _ _) ?_
  refine Yields.bind (hstd.assertEqualPoint _ _) ?_
  -- The certificate.
  simp only [hstd.xCoordinate, hstd.yCoordinate]
  refine Computes.bind (hstd.assignFixed _) ?_
  refine Computes.bind (hstd.poseidon _) ?_
  refine Yields.bind (asserts_verifyCertificate hstd _ _ _) ?_
  -- The leaf.
  refine Computes.bind (hstd.assignFixed _) ?_
  refine Computes.bind (hstd.poseidon _) ?_
  refine Computes.bind (computes_merkleRoot hstd _ _) ?_
  refine Yields.bind (hstd.assertEqual _ _) ?_
  -- The currency clauses.
  refine Computes.bind (computes_revocationEntryGadget hstd _) ?_
  refine Yields.bind (asserts_assertAbsent hstd _ _ _) ?_
  refine Computes.bind (hstd.assignFixed _) ?_
  refine Computes.bind (hstd.poseidon _) ?_
  refine Yields.bind (asserts_assertAbsent hstd _ _ _) ?_
  -- The action clause.
  refine Yields.bind (asserts_assertActionTag hstd _) ?_
  refine Computes.bind (computes_actionSelectors hstd _) ?_
  refine Computes.bind (hstd.select _ _ _) ?_
  refine Computes.bind (hstd.assignFixed _) ?_
  refine Computes.bind (hstd.poseidon _) ?_
  refine Computes.bind (hstd.assignFixed _) ?_
  refine Computes.bind (hstd.select _ _ _) ?_
  exact hstd.assertEqual _ _

theorem migrationRelation_law (inst : MigrationInstance) (witness : MigrationWitness depth) :
    ((migrationRelation depth).circuit stdLib inst witness).Law
      ((migrationRelation depth).formatInstance inst)
      (witness.oldClassPath.root (openedLeaf witness.oldRootPublicKey witness.credentialKey
          witness.oldRootOpening inst.agora) = inst.classRoot ∧
        (GapAround (revocationEntry (openedLeaf witness.oldRootPublicKey witness.credentialKey
            witness.oldRootOpening inst.agora)) witness.revocationAbsence inst.revocationRoot ∧
          witness.revocationAbsence.high.val < 2 ^ 253) ∧
        spendOf witness.credentialKey (openedLeaf witness.oldRootPublicKey witness.credentialKey
          witness.oldRootOpening inst.agora) inst.agora = inst.spendNullifier ∧
        verify witness.migrationCertificate witness.oldRootPublicKey
          (Poseidon.hash [Field.ofNat FieldDomain.MIGRATION_CERT, inst.agora,
            (Primitives.coordinates witness.successorPublicKey).1,
            (Primitives.coordinates witness.successorPublicKey).2]) = true ∧
        openedLeaf witness.successorPublicKey witness.credentialKey witness.successorOpening
          inst.agora = inst.successorCommitment) := by
  refine (hstd.assignAsPublicInput _).bind ?_
  refine (hstd.assignAsPublicInput _).bind ?_
  refine (hstd.assignAsPublicInput _).bind ?_
  refine (hstd.assignAsPublicInput _).bind ?_
  refine (hstd.assignAsPublicInput _).bind ?_
  refine Synthesis.law_lift ?_
  refine Computes.bind (hstd.assignPoint _) ?_
  refine Computes.bind (hstd.assign _) ?_
  refine Computes.bind (hstd.assign _) ?_
  refine Computes.bind (computes_assignPath hstd _) ?_
  refine Computes.bind (computes_assignSignature hstd _) ?_
  refine Computes.bind (hstd.assignPoint _) ?_
  refine Computes.bind (hstd.assign _) ?_
  -- The leaf consumed.
  simp only [hstd.xCoordinate, hstd.yCoordinate]
  refine Computes.bind (hstd.assignFixed _) ?_
  refine Computes.bind (hstd.poseidon _) ?_
  refine Computes.bind (computes_merkleRoot hstd _ _) ?_
  refine Yields.bind (hstd.assertEqual _ _) ?_
  refine Computes.bind (computes_revocationEntryGadget hstd _) ?_
  refine Yields.bind (asserts_assertAbsent hstd _ _ _) ?_
  refine Computes.bind (hstd.assignFixed _) ?_
  refine Computes.bind (hstd.poseidon _) ?_
  refine Yields.bind (hstd.assertEqual _ _) ?_
  -- The successor authorized, and its commitment.
  refine Computes.bind (hstd.assignFixed _) ?_
  refine Computes.bind (hstd.poseidon _) ?_
  refine Yields.bind (asserts_verifyCertificate hstd _ _ _) ?_
  refine Computes.bind (hstd.poseidon _) ?_
  exact hstd.assertEqual _ _

theorem inboxRelation_law (inst : InboxInstance) (witness : InboxWitness) :
    (inboxRelation.circuit stdLib inst witness).Law (inboxRelation.formatInstance inst)
      (openedLeaf witness.rootPublicKey witness.credentialKey witness.rootOpening inst.agora =
          inst.leaf ∧
        (inst.action = Field.ofNat FieldDomain.InboxAction.RETIRE ∨
          inst.action = Field.ofNat FieldDomain.InboxAction.RENEW) ∧
        verify witness.certificate witness.rootPublicKey (Poseidon.hash
          [Field.ofNat FieldDomain.INBOX_CERT, inst.agora, inst.action, inst.inboxKey]) =
            true) := by
  refine (hstd.assignAsPublicInput _).bind ?_
  refine (hstd.assignAsPublicInput _).bind ?_
  refine (hstd.assignAsPublicInput _).bind ?_
  refine (hstd.assignAsPublicInput _).bind ?_
  refine Synthesis.law_lift ?_
  refine Computes.bind (hstd.assignPoint _) ?_
  refine Computes.bind (hstd.assign _) ?_
  refine Computes.bind (hstd.assign _) ?_
  refine Computes.bind (computes_assignSignature hstd _) ?_
  simp only [hstd.xCoordinate, hstd.yCoordinate]
  refine Computes.bind (hstd.assignFixed _) ?_
  refine Computes.bind (hstd.poseidon _) ?_
  refine Yields.bind (hstd.assertEqual _ _) ?_
  refine Yields.bind (asserts_assertInboxAction hstd _) ?_
  refine Computes.bind (hstd.assignFixed _) ?_
  refine Computes.bind (hstd.poseidon _) ?_
  exact asserts_verifyCertificate hstd _ _ _

end

-- A circuit that publishes its inputs as they are formatted accepts what its constraints allow
-- of the public instance itself.
theorem Relation.accepts_iff [Primitives] {Instance Witness : Type}
    {relation : Relation Instance Witness} {stdLib : CircuitLib}
    {condition : Instance → Witness → Prop}
    (hlaw : ∀ inst witness, (relation.circuit stdLib inst witness).Law
      (relation.formatInstance inst) (condition inst witness))
    (hformat : Function.Injective relation.formatInstance) (inst : Instance) (witness : Witness) :
    relation.Accepts stdLib inst witness ↔ condition inst witness := by
  constructor
  · rintro ⟨assigned, hsatisfied, hpublished⟩
    rw [(hlaw assigned witness).published] at hpublished
    rw [← hformat hpublished]
    exact (hlaw assigned witness).satisfied.1 hsatisfied
  · intro hcondition
    exact ⟨inst, (hlaw inst witness).satisfied.2 hcondition, (hlaw inst witness).published⟩

section

variable [Primitives] {stdLib : CircuitLib} (hstd : stdLib.Documented) {depth : Nat}
include hstd

omit hstd in
theorem chainRelation_formatInstance_inj :
    Function.Injective (chainRelation depth).formatInstance := by
  intro left right hsame
  cases left
  cases right
  simp only [chainRelation, List.cons.injEq] at hsame
  simp only [hsame]

-- Below the field order the two forms of the epoch key are those of one canonical scalar.
theorem chainRelation_accepts {inst : ChainInstance} {witness : ChainWitness depth} :
    (chainRelation depth).Accepts stdLib inst witness ∧
        witness.epochKeyBytes.toNatLe < fieldOrder ↔
      (∃ epochKey, ChainClauses epochKey witness inst) ∧
        witness.revocationAbsence.high.val < 2 ^ 253 ∧ witness.spendAbsence.high.val < 2 ^ 253 := by
  rw [Relation.accepts_iff (chainRelation_law hstd) chainRelation_formatInstance_inj]
  constructor
  · rintro ⟨⟨hcanonical, hcorrespondence, hcertified, hincluded, hrevocation, hspend, htag,
      houtput⟩, hbytes⟩
    rw [Nat.mod_eq_of_lt hbytes] at hcanonical
    have hscalar : Signature.scalarFromBytes witness.epochKeyBytes =
        some (Fin.ofNat jubjubOrder witness.epochKeyBytes.toNatLe) := by
      rw [Signature.scalarFromBytes, dif_pos hcanonical, Option.some_inj]
      exact Fin.ext (Nat.mod_eq_of_lt hcanonical).symm
    refine ⟨⟨Fin.ofNat jubjubOrder witness.epochKeyBytes.toNatLe, ?_⟩, hrevocation.2, hspend.2⟩
    exact {
      canonical := hscalar
      correspondence := hcorrespondence
      certified := hcertified
      included := hincluded
      unrevoked := hrevocation.1
      unspent := hspend.1
      action := by
        rw [satisfiesAction_iff_selected, scalarAsField_eq hscalar]
        exact ⟨htag, houtput⟩ }
  · rintro ⟨⟨epochKey, hclauses⟩, hrevocation, hspend⟩
    have haction := hclauses.action
    rw [satisfiesAction_iff_selected, scalarAsField_eq hclauses.canonical] at haction
    have hcanonical := hclauses.canonical
    have hcorrespondence := hclauses.correspondence
    unfold Signature.scalarFromBytes at hcanonical
    split at hcanonical
    next hlt =>
      have hscalar : Fin.ofNat jubjubOrder witness.epochKeyBytes.toNatLe = epochKey := by
        rw [← Option.some_inj.1 hcanonical]
        exact Fin.ext (Nat.mod_eq_of_lt hlt)
      have hbytes := Nat.lt_trans hlt jubjubOrder_lt_fieldOrder
      refine ⟨⟨?_, ?_, hclauses.certified, hclauses.included, ⟨hclauses.unrevoked, hrevocation⟩,
        ⟨hclauses.unspent, hspend⟩, haction⟩, hbytes⟩
      · rw [Nat.mod_eq_of_lt hbytes]
        exact hlt
      · rw [hscalar]
        exact hcorrespondence
    · cases hcanonical

theorem migrationRelation_accepts {inst : MigrationInstance} {witness : MigrationWitness depth} :
    (migrationRelation depth).Accepts stdLib inst witness ↔
      MigrationClauses witness inst ∧ witness.revocationAbsence.high.val < 2 ^ 253 := by
  have hformat : Function.Injective (migrationRelation depth).formatInstance := by
    intro left right hsame
    cases left
    cases right
    simp only [migrationRelation, List.cons.injEq] at hsame
    simp only [hsame]
  rw [Relation.accepts_iff (migrationRelation_law hstd) hformat]
  constructor
  · rintro ⟨hincluded, hrevocation, hspend, hcertified, hsuccessor⟩
    exact ⟨⟨hincluded, hrevocation.1, hspend, hcertified, hsuccessor⟩, hrevocation.2⟩
  · rintro ⟨hclauses, hrange⟩
    exact ⟨hclauses.included, ⟨hclauses.unrevoked, hrange⟩, hclauses.spend, hclauses.certified,
      hclauses.successor⟩

theorem inboxRelation_accepts {inst : InboxInstance} {witness : InboxWitness} :
    inboxRelation.Accepts stdLib inst witness ↔ satisfiesInbox witness inst = true := by
  have hformat : Function.Injective inboxRelation.formatInstance := by
    intro left right hsame
    cases left
    cases right
    simp only [inboxRelation, List.cons.injEq] at hsame
    simp only [hsame]
  rw [Relation.accepts_iff (inboxRelation_law hstd) hformat]
  simp only [satisfiesInbox, Circuits.getD_false_eq_true, Option.bind_eq_bind,
    Option.bind_eq_some_iff, Option.guard_eq_some', exists_const, Option.pure_def, Option.some_inj]

end

-- The circuits ask of a witness what the evaluators do, and the range of both upper bounds. Past
-- the field order an epoch key's bytes have no canonical scalar, and only the circuit takes them.
theorem circuits_ask_what_evaluators_do [Primitives] (stdLib : CircuitLib)
    (hstd : stdLib.Documented) (depth : Nat) :
    (∀ (inst : ChainInstance) (witness : ChainWitness depth),
      (chainRelation depth).Accepts stdLib inst witness ∧
          witness.epochKeyBytes.toNatLe < fieldOrder ↔
        satisfiesChain witness inst = true ∧ witness.revocationAbsence.high.val < 2 ^ 253 ∧
          witness.spendAbsence.high.val < 2 ^ 253) ∧
    (∀ (inst : MigrationInstance) (witness : MigrationWitness depth),
      (migrationRelation depth).Accepts stdLib inst witness ↔
        satisfiesMigration witness inst = true ∧
          witness.revocationAbsence.high.val < 2 ^ 253) ∧
    ∀ (inst : InboxInstance) (witness : InboxWitness),
      inboxRelation.Accepts stdLib inst witness ↔ satisfiesInbox witness inst = true := by
  refine ⟨?_, ?_, ?_⟩
  · intro inst witness
    rw [satisfiesChain_iff]
    exact chainRelation_accepts hstd
  · intro inst witness
    rw [satisfiesMigration_iff]
    exact migrationRelation_accepts hstd
  · intro inst witness
    exact inboxRelation_accepts hstd

-- A sum of points; one over no terms is not asked for.
def sumOf [Primitives] : List SubgroupPoint → SubgroupPoint
  | [] => Primitives.generator
  | point :: points => points.foldl Primitives.add point

-- The documented behaviour, as functions.
def CircuitLib.reference [Primitives] : CircuitLib where
  toZkStdLib := .reference
  assignAsPublicInput := .publish
  assign := .assign
  assignFixed := .assign
  assignManyNative := .assign
  assignManyBits := .assign
  poseidon inputs := .assign (Poseidon.hash inputs)
  condSwap cond x y := .assign (if cond then (y, x) else (x, y))
  select cond x y := .assign (if cond then x else y)
  isEqualToFixed x constant := .assign (decide (x = constant))
  or bits := .assign (bits.any id)
  addConstant x constant := .assign (x + constant)
  mul x y := .assign (x * y)
  assertEqual x y := .constrain (x = y)
  assertEqualToFixed x constant := .constrain (x = constant)
  assertBitEqualToFixed bit constant := .constrain (bit = constant)
  lowerThan x y bound := ⟨x.val < 2 ^ bound ∧ y.val < 2 ^ bound, decide (x.val < y.val)⟩
  assignedToLeBits value := .assign (BitString.ofNat NUM_BITS value.val)
  assignedFromLeBits bits := .assign (Field.ofNat (BitString.toNat bits))
  assignedToLeBytes value := .assign (Field.toBytes value)
  assignPoint := .assign
  assignFixedPoint := .assign
  assignScalar := .assign
  xCoordinate point := (Primitives.coordinates point).1
  yCoordinate point := (Primitives.coordinates point).2
  msm scalars bases := .assign (sumOf (List.zipWith Primitives.mul bases scalars))
  add left right := .assign (Primitives.add left right)
  assertEqualPoint left right := .constrain (left = right)

theorem CircuitLib.reference_documented [Primitives] : CircuitLib.reference.Documented where
  toDocumented := ZkStdLib.reference_documented
  assignAsPublicInput := Synthesis.publishes_publish
  assign := computes_assign
  assignFixed := computes_assign
  assignManyNative := computes_assign
  assignManyBits := computes_assign
  poseidon _ := computes_assign _
  condSwap _ _ _ := computes_assign _
  select _ _ _ := computes_assign _
  isEqualToFixed _ _ := computes_assign _
  or _ := computes_assign _
  addConstant _ _ := computes_assign _
  mul _ _ := computes_assign _
  assertEqual _ _ := asserts_constrain _
  assertEqualToFixed _ _ := asserts_constrain _
  assertBitEqualToFixed _ _ := asserts_constrain _
  lowerThan _ _ _ := ⟨Iff.rfl, fun _ => rfl⟩
  assignedToLeBits _ := computes_assign _
  assignedFromLeBits _ := computes_assign _
  assignedToLeBytes _ := computes_assign _
  assignPoint := computes_assign
  assignFixedPoint := computes_assign
  assignScalar := computes_assign
  xCoordinate _ := rfl
  yCoordinate _ := rfl
  msm _ _ := computes_assign _
  add _ _ := computes_assign _
  assertEqualPoint _ _ := asserts_constrain _

end Nymora.Plonk

namespace Nymora.Plonk.Relation.Sample

open Nymora.Crypto
open Nymora.Plonk.Evaluate.Sample
open scoped Nymora.Crypto.Reference

theorem circuits_ask_what_evaluators_do_honest :
    (chainRelation 1).Accepts .reference (inst accessing honest_converts.2)
      (native (Circuits.Soundness.Sample.witness Circuits.Soundness.Sample.credential)
        honest_converts.1) :=
  (((circuits_ask_what_evaluators_do .reference CircuitLib.reference_documented 1).1 _ _).2
    (by decide +kernel)).1

end Nymora.Plonk.Relation.Sample
