import Nymora.Plonk.System
import Nymora.Crypto.Reference

namespace Nymora.Plonk

open Nymora.Core
open Nymora.Crypto
open Nymora.Circuits (Action ChainPublicInputs MigrationPublicInputs InboxPublicInputs)

@[simp] theorem bridge_eq (value : F) : bridge value = value := by
  have hdecoded : decode (Field.toBytes value) = some (bridge value) := (Option.some_get _).symm
  rw [decode, Field.decode_eq_some, Field.fromWitnessBytes_toBytes] at hdecoded
  exact hdecoded.2

theorem decode_inj {left right : Bytes 32} {value : F} (hleft : decode left = some value)
    (hright : decode right = some value) : left = right := by
  rw [decode, Field.decode_eq_some] at hleft hright
  rw [← Field.fromWitnessBytes_of_lt hleft.1, ← hleft.2, hright.2,
    Field.fromWitnessBytes_of_lt hright.1]

-- Byte strings that differ in bits 254 and 255 at most.
def Twins (left right : Bytes 32) : Prop := left.toNatLe % 2 ^ 254 = right.toNatLe % 2 ^ 254

instance (left right : Bytes 32) : Decidable (Twins left right) :=
  inferInstanceAs (Decidable (_ = _))

theorem fromId_eq_iff {left right : Bytes 32} :
    Field.fromId left = Field.fromId right ↔ Twins left right := by
  rw [← Fin.val_inj, Twins, ← Field.toNatLe_mask_id, ← Field.toNatLe_mask_id]
  rfl

-- What enters the instance of an action: its tag, the bytes it claims as output and, below, the
-- 32 bytes of its context.
def actionTag : Action → Nat
  | .Authorship _ _ => FieldDomain.ActionTag.AUTHORSHIP
  | .Vouch _ _ => FieldDomain.ActionTag.VOUCH
  | .PolicyApproval _ _ => FieldDomain.ActionTag.POLICY
  | .LiveAuth _ _ => FieldDomain.ActionTag.LIVE_AUTH
  | .VerificationAccess _ => FieldDomain.ActionTag.VERIFICATION

def outputBytes : Action → Option (Bytes 32)
  | .Authorship _ nullifier => some nullifier.asBytes
  | .Vouch _ nullifier => some nullifier.asBytes
  | .PolicyApproval _ nullifier => some nullifier.asBytes
  | .LiveAuth _ pseudonym => some pseudonym.asBytes
  | .VerificationAccess _ => none

theorem actionTag_lt (action : Action) : actionTag action < 5 := by
  cases action <;> simp only [actionTag] <;> decide

theorem outputBytes_eq_none {action : Action} :
    outputBytes action = none ↔ actionTag action = FieldDomain.ActionTag.VERIFICATION := by
  cases action <;> simp [outputBytes, actionTag, FieldDomain.ActionTag.AUTHORSHIP,
    FieldDomain.ActionTag.VOUCH, FieldDomain.ActionTag.POLICY, FieldDomain.ActionTag.LIVE_AUTH,
    FieldDomain.ActionTag.VERIFICATION]

theorem epoch_inj {left right : Epoch} (hsame : Field.ofNat left.get = Field.ofNat right.get) :
    left = right := by
  have hfits : 2 ^ 64 ≤ fieldOrder := by decide
  have hleft := left.get_lt
  have hright := right.get_lt
  have hvalues := Field.ofNat_inj (by omega) (by omega) hsame
  cases left
  cases right
  simp only at hvalues
  subst hvalues
  rfl

section

variable [Primitives]

-- The byte family's compression of a variable-length identifier.
def contextDigest (identifier : List UInt8) : Bytes 32 :=
  ((ByteHasher.new .ActionContext).absorb identifier).finalize

def contextBytes : Action → Bytes 32
  | .Authorship messageHash _ => messageHash.asBytes
  | .Vouch sessionId _ => contextDigest sessionId
  | .PolicyApproval proposalId _ => contextDigest proposalId
  | .LiveAuth context _ => context.asBytes
  | .VerificationAccess challenge => contextDigest challenge

theorem actionInstance_eq (action : Action) :
    actionInstance action = (match outputBytes action with
      | some bytes => decode bytes
      | none => some (Field.ofNat 0)).map fun output =>
        (actionTag action, Field.fromId (contextBytes action), output) := by
  cases action with
  | VerificationAccess challenge =>
      simp only [actionInstance, outputBytes, bridge_eq, Option.map_some]
      rfl
  | _ => simp [actionInstance, outputBytes, Option.map_eq_bind]; rfl

-- Actions of one kind and one claimed output whose contexts are twins.
structure ActionTwins (left right : Action) : Prop where
  tag : actionTag left = actionTag right
  context : Twins (contextBytes left) (contextBytes right)
  output : outputBytes left = outputBytes right

theorem actionInstance_congr {left right : Action} (htwins : ActionTwins left right) :
    actionInstance left = actionInstance right := by
  rw [actionInstance_eq, actionInstance_eq, htwins.tag, htwins.output,
    fromId_eq_iff.2 htwins.context]

theorem actionTwins_of_eq {left right : Action} {tag other : Nat} {context output : F}
    (hleft : actionInstance left = some (tag, context, output))
    (hright : actionInstance right = some (other, context, output))
    (htag : Field.ofNat tag = Field.ofNat other) : ActionTwins left right := by
  rw [actionInstance_eq, Option.map_eq_some_iff] at hleft hright
  obtain ⟨_, hleftOutput, hleftParts⟩ := hleft
  obtain ⟨_, hrightOutput, hrightParts⟩ := hright
  simp only [Prod.mk.injEq] at hleftParts hrightParts
  obtain ⟨rfl, hleftContext, rfl⟩ := hleftParts
  obtain ⟨rfl, hrightContext, rfl⟩ := hrightParts
  have hfits : 5 ≤ fieldOrder := by decide
  have hleftTag := actionTag_lt left
  have hrightTag := actionTag_lt right
  have hsame := Field.ofNat_inj (by omega) (by omega) htag
  refine ⟨hsame, fromId_eq_iff.1 (hleftContext.trans hrightContext.symm), ?_⟩
  cases hleftBytes : outputBytes left with
  | none =>
      rw [outputBytes_eq_none, hsame, ← outputBytes_eq_none] at hleftBytes
      exact hleftBytes.symm
  | some bytes =>
      cases hrightBytes : outputBytes right with
      | none =>
          rw [outputBytes_eq_none, ← hsame, ← outputBytes_eq_none, hleftBytes] at hrightBytes
          cases hrightBytes
      | some others =>
          rw [hleftBytes] at hleftOutput
          rw [hrightBytes] at hrightOutput
          rw [decode_inj hleftOutput hrightOutput]

-- Public inputs that agree but for bits 254 and 255 of what is truncated on the way in.
structure ChainTwins (left right : ChainPublicInputs) : Prop where
  agora : Twins left.agora.asBytes right.agora.asBytes
  epoch : left.epoch = right.epoch
  classRoot : left.classRoot = right.classRoot
  revocationRoot : left.revocationRoot = right.revocationRoot
  spendRoot : left.spendRoot = right.spendRoot
  action : ActionTwins left.action right.action

theorem chainInstance_eq_some {inputs : ChainPublicInputs} {inst : ChainInstance} :
    chainInstance inputs = some inst ↔
      (∃ tag, actionInstance inputs.action = some (tag, inst.actionContext, inst.actionOutput) ∧
        inst.actionTag = Field.ofNat tag) ∧
      decode inputs.classRoot.asBytes = some inst.classRoot ∧
      decode inputs.revocationRoot.asBytes = some inst.revocationRoot ∧
      decode inputs.spendRoot.asBytes = some inst.spendRoot ∧
      inst.agora = Field.fromId inputs.agora.asBytes ∧
      inst.epoch = Field.ofNat inputs.epoch.get := by
  cases inst
  simp only [chainInstance, bridge_eq, Option.bind_eq_bind, Option.bind_eq_some_iff,
    Option.pure_def, Option.some_inj, ChainInstance.mk.injEq, Prod.exists]
  constructor
  · rintro ⟨tag, context, output, haction, _, hclass, _, hrevocation, _, hspend, rfl, rfl, rfl, rfl,
      rfl, rfl, rfl, rfl⟩
    exact ⟨⟨tag, haction, rfl⟩, hclass, hrevocation, hspend, rfl, rfl⟩
  · rintro ⟨⟨tag, haction, rfl⟩, hclass, hrevocation, hspend, rfl, rfl⟩
    exact ⟨tag, _, _, haction, _, hclass, _, hrevocation, _, hspend, rfl, rfl, rfl, rfl, rfl, rfl,
      rfl, rfl⟩

theorem chainInstance_eq_iff {left right : ChainPublicInputs}
    (haccepted : (chainInstance left).isSome) :
    chainInstance left = chainInstance right ↔ ChainTwins left right := by
  constructor
  · intro hsame
    obtain ⟨inst, hleft⟩ := Option.isSome_iff_exists.1 haccepted
    have hright := hleft
    rw [hsame] at hright
    rw [chainInstance_eq_some] at hleft hright
    obtain ⟨⟨tag, haction, htag⟩, hclass, hrevocation, hspend, hagora, hepoch⟩ := hleft
    obtain ⟨⟨other, haction', htag'⟩, hclass', hrevocation', hspend', hagora', hepoch'⟩ := hright
    exact {
      agora := fromId_eq_iff.1 (hagora.symm.trans hagora')
      epoch := epoch_inj (hepoch.symm.trans hepoch')
      classRoot := Digest.asBytes_inj.1 (decode_inj hclass hclass')
      revocationRoot := Digest.asBytes_inj.1 (decode_inj hrevocation hrevocation')
      spendRoot := Digest.asBytes_inj.1 (decode_inj hspend hspend')
      action := actionTwins_of_eq haction haction' (htag.symm.trans htag') }
  · intro htwins
    have hagora := fromId_eq_iff.2 htwins.agora
    have haction := actionInstance_congr htwins.action
    apply Option.ext
    intro inst
    rw [chainInstance_eq_some, chainInstance_eq_some, hagora, haction, htwins.epoch,
      htwins.classRoot, htwins.revocationRoot, htwins.spendRoot]

end

structure MigrationTwins (left right : MigrationPublicInputs) : Prop where
  agora : Twins left.agora.asBytes right.agora.asBytes
  classRoot : left.classRoot = right.classRoot
  revocationRoot : left.revocationRoot = right.revocationRoot
  spendNullifier : left.spendNullifier = right.spendNullifier
  successorCommitment : left.successorCommitment = right.successorCommitment

structure InboxTwins (left right : InboxPublicInputs) : Prop where
  agora : Twins left.agora.asBytes right.agora.asBytes
  leaf : left.leaf = right.leaf
  inboxPublicKey : Twins left.inboxPublicKey.asBytes right.inboxPublicKey.asBytes
  action : left.action = right.action

theorem migrationInstance_eq_some {inputs : MigrationPublicInputs} {inst : MigrationInstance} :
    migrationInstance inputs = some inst ↔
      decode inputs.classRoot.asBytes = some inst.classRoot ∧
      decode inputs.revocationRoot.asBytes = some inst.revocationRoot ∧
      decode inputs.spendNullifier.asBytes = some inst.spendNullifier ∧
      decode inputs.successorCommitment.asBytes = some inst.successorCommitment ∧
      inst.agora = Field.fromId inputs.agora.asBytes := by
  cases inst
  simp only [migrationInstance, bridge_eq, Option.bind_eq_bind, Option.bind_eq_some_iff,
    Option.pure_def, Option.some_inj, MigrationInstance.mk.injEq]
  grind

theorem migrationInstance_eq_iff {left right : MigrationPublicInputs}
    (haccepted : (migrationInstance left).isSome) :
    migrationInstance left = migrationInstance right ↔ MigrationTwins left right := by
  constructor
  · intro hsame
    obtain ⟨inst, hleft⟩ := Option.isSome_iff_exists.1 haccepted
    have hright := hleft
    rw [hsame] at hright
    rw [migrationInstance_eq_some] at hleft hright
    obtain ⟨hclass, hrevocation, hspend, hsuccessor, hagora⟩ := hleft
    obtain ⟨hclass', hrevocation', hspend', hsuccessor', hagora'⟩ := hright
    exact {
      agora := fromId_eq_iff.1 (hagora.symm.trans hagora')
      classRoot := Digest.asBytes_inj.1 (decode_inj hclass hclass')
      revocationRoot := Digest.asBytes_inj.1 (decode_inj hrevocation hrevocation')
      spendNullifier := Digest.asBytes_inj.1 (decode_inj hspend hspend')
      successorCommitment := Digest.asBytes_inj.1 (decode_inj hsuccessor hsuccessor') }
  · intro htwins
    have hagora := fromId_eq_iff.2 htwins.agora
    apply Option.ext
    intro inst
    rw [migrationInstance_eq_some, migrationInstance_eq_some, hagora, htwins.classRoot,
      htwins.revocationRoot, htwins.spendNullifier, htwins.successorCommitment]

theorem inboxInstance_eq_some {inputs : InboxPublicInputs} {inst : InboxInstance} :
    inboxInstance inputs = some inst ↔
      decode inputs.leaf.asBytes = some inst.leaf ∧
      inst.agora = Field.fromId inputs.agora.asBytes ∧
      inst.inboxKey = Field.fromId inputs.inboxPublicKey.asBytes ∧
      inst.action = Field.ofNat inputs.action.tag := by
  cases inst
  simp only [inboxInstance, bridge_eq, Option.bind_eq_bind, Option.bind_eq_some_iff,
    Option.pure_def, Option.some_inj, InboxInstance.mk.injEq]
  grind

theorem inboxAction_inj {left right : InboxAction}
    (hsame : Field.ofNat left.tag = Field.ofNat right.tag) : left = right := by
  cases left <;> cases right <;> first | rfl | exact absurd hsame (by decide)

theorem inboxInstance_eq_iff {left right : InboxPublicInputs}
    (haccepted : (inboxInstance left).isSome) :
    inboxInstance left = inboxInstance right ↔ InboxTwins left right := by
  constructor
  · intro hsame
    obtain ⟨inst, hleft⟩ := Option.isSome_iff_exists.1 haccepted
    have hright := hleft
    rw [hsame] at hright
    rw [inboxInstance_eq_some] at hleft hright
    obtain ⟨hleaf, hagora, hkey, haction⟩ := hleft
    obtain ⟨hleaf', hagora', hkey', haction'⟩ := hright
    exact {
      agora := fromId_eq_iff.1 (hagora.symm.trans hagora')
      leaf := Digest.asBytes_inj.1 (decode_inj hleaf hleaf')
      inboxPublicKey := fromId_eq_iff.1 (hkey.symm.trans hkey')
      action := inboxAction_inj (haction.symm.trans haction') }
  · intro htwins
    have hagora := fromId_eq_iff.2 htwins.agora
    have hkey := fromId_eq_iff.2 htwins.inboxPublicKey
    apply Option.ext
    intro inst
    rw [inboxInstance_eq_some, inboxInstance_eq_some, hagora, hkey, htwins.leaf, htwins.action]

-- What the transcript gives: a proof verifies for one instance.
def Keys.Binds {Instance Witness : Type} (keys : Keys Instance Witness) : Prop :=
  ∀ inst other proof, keys.verify inst proof = true → keys.verify other proof = true →
    inst = other

structure Backend.Binds [Primitives] {depth : Nat} (backend : Backend depth) : Prop where
  chain : backend.chain.Binds
  migration : backend.migration.Binds
  inbox : backend.inbox.Binds

-- How far a statement's public inputs are bound: distinct accepted inputs have distinct
-- instances, and a proof of the one is refused for the other, where they are no twins.
def BoundBut {PublicInputs Instance : Type} (instanceOf : PublicInputs → Option Instance)
    (verify : List UInt8 → PublicInputs → Bool)
    (twins : PublicInputs → PublicInputs → Prop) : Prop :=
  (∀ inputs altered, (instanceOf inputs).isSome → (instanceOf altered).isSome →
    ((inputs ≠ altered → instanceOf inputs ≠ instanceOf altered) ↔
      (inputs ≠ altered → ¬ twins inputs altered))) ∧
  ∀ proof inputs altered, verify proof inputs = true →
    ((inputs ≠ altered → verify proof altered = false) ↔
      (inputs ≠ altered → ¬ twins inputs altered))

theorem boundBut {PublicInputs Instance Witness : Type} {keys : Keys Instance Witness}
    {instanceOf : PublicInputs → Option Instance} {twins : PublicInputs → PublicInputs → Prop}
    (hbinds : keys.Binds)
    (htwins : ∀ {left right}, (instanceOf left).isSome →
      (instanceOf left = instanceOf right ↔ twins left right)) :
    BoundBut instanceOf (fun proof inputs => verifyConverted keys (instanceOf inputs) proof)
      twins := by
  refine ⟨?_, ?_⟩
  · intro inputs altered haccepted _
    rw [ne_eq, ← htwins haccepted]
  · intro proof inputs altered hverify
    dsimp only at hverify ⊢
    obtain ⟨inst, hinst⟩ : ∃ inst, instanceOf inputs = some inst := by
      cases hinst : instanceOf inputs with
      | none => rw [hinst] at hverify; cases hverify
      | some inst => exact ⟨inst, rfl⟩
    have hsame : verifyConverted keys (instanceOf altered) proof = true ↔
        instanceOf inputs = instanceOf altered := by
      constructor
      · intro haltered
        cases hother : instanceOf altered with
        | none => rw [hother] at haltered; cases haltered
        | some other =>
            rw [hother] at haltered
            rw [hinst] at hverify
            rw [hinst, hbinds inst other proof hverify haltered]
      · intro heq
        rw [← heq]
        exact hverify
    have haccepted : (instanceOf inputs).isSome := by rw [hinst]; rfl
    rw [← htwins haccepted, ← hsame, Bool.not_eq_true]

-- What the real backend binds: everything but bits 254 and 255 of the agora, of an action's
-- context and of the inbox key.
theorem backend_binds_but_twins [Primitives] {depth : Nat} (backend : Backend depth)
    (hbinds : backend.Binds) :
    BoundBut chainInstance backend.proofSystem.verify ChainTwins ∧
      BoundBut migrationInstance backend.proofSystem.verifyMigration MigrationTwins ∧
      BoundBut inboxInstance backend.proofSystem.verifyInbox InboxTwins :=
  ⟨boundBut hbinds.chain chainInstance_eq_iff,
    boundBut hbinds.migration migrationInstance_eq_iff,
    boundBut hbinds.inbox inboxInstance_eq_iff⟩

namespace System.Sample

open scoped Nymora.Crypto.Reference

-- A key pair that has proved one instance.
def keysOf {Instance Witness : Type} [DecidableEq Instance] (proved : Instance) :
    Keys Instance Witness where
  prove inst _ := if inst = proved then some [1] else none
  verify inst proof := decide (inst = proved ∧ proof = [1])

theorem keysOf_binds {Instance Witness : Type} [DecidableEq Instance] (proved : Instance) :
    (keysOf proved : Keys Instance Witness).Binds := by
  intro inst other proof hverify hother
  have hinst := (of_decide_eq_true hverify).1
  have hproved := (of_decide_eq_true hother).1
  rw [hinst, hproved]

def registered : InboxPublicInputs :=
  ⟨.fromBytes (Bytes.replicate 32 1), .fromBytes (Bytes.replicate 32 2),
    .fromBytes (Bytes.replicate 32 3), .Renew⟩

-- Another X25519 key: bit 254 flipped.
def flipped : InboxPublicInputs :=
  { registered with
    inboxPublicKey := .fromBytes ((Bytes.replicate 32 3).modify 31 (· ^^^ 0x40)) }

-- The first byte changed.
def altered : InboxPublicInputs :=
  { registered with inboxPublicKey := .fromBytes ((Bytes.replicate 32 3).modify 0 (· ^^^ 1)) }

def backend : Backend 1 where
  chain := keysOf ⟨0, 0, 0, 0, 0, 0, 0, 0⟩
  migration := keysOf ⟨0, 0, 0, 0, 0⟩
  inbox := keysOf ((inboxInstance registered).get (by decide +kernel))

theorem backend_binds : backend.Binds := ⟨keysOf_binds _, keysOf_binds _, keysOf_binds _⟩

theorem backend_binds_but_twins_altered :
    backend.proofSystem.verifyInbox [1] registered = true ∧
      backend.proofSystem.verifyInbox [1] altered = false := by
  have hverify : backend.proofSystem.verifyInbox [1] registered = true := by decide +kernel
  have hbound := (backend_binds_but_twins backend backend_binds).2.2.2 [1] registered altered hverify
  have hapart : ¬ InboxTwins registered altered := by
    intro htwins
    exact absurd htwins.inboxPublicKey (by decide +kernel)
  exact ⟨hverify, hbound.2 (fun _ => hapart) (by decide +kernel)⟩

-- A proof for one inbox key is a proof for the key with bit 254 flipped, whatever the backend.
theorem flipped_key_is_not_told_apart :
    registered.inboxPublicKey ≠ flipped.inboxPublicKey ∧ (inboxInstance registered).isSome ∧
      inboxInstance registered = inboxInstance flipped ∧
      (∀ (other : Backend 1) proof, other.proofSystem.verifyInbox proof flipped =
        other.proofSystem.verifyInbox proof registered) ∧
      backend.proofSystem.verifyInbox [1] flipped = true := by
  have hsame : inboxInstance registered = inboxInstance flipped := by decide +kernel
  refine ⟨by decide +kernel, by decide +kernel, hsame, ?_, by decide +kernel⟩
  intro other proof
  change verifyConverted other.inbox (inboxInstance flipped) proof =
    verifyConverted other.inbox (inboxInstance registered) proof
  rw [hsame]

end System.Sample

end Nymora.Plonk
