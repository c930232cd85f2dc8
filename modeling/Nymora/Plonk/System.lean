import Nymora.Circuits.Statement
import Nymora.Crypto.Hash
import Nymora.Plonk.Evaluate

namespace Nymora.Plonk

open Nymora.Core
open Nymora.Crypto

-- Strict decoding of a 32-byte protocol value into the circuit field.
def decode (bytes : Bytes 32) : Option F := Field.decode bytes

theorem decode_toBytes_isSome (value : F) : (decode (Field.toBytes value)).isSome := by
  unfold decode Field.decode
  rw [dif_pos (by rw [Field.toNatLe_toBytes]; exact value.isLt)]
  rfl

-- A workspace field element, through canonical bytes, as the circuit field's element.
def bridge (value : F) : F := (decode (Field.toBytes value)).get (decode_toBytes_isSome value)

section

variable [Primitives]

def decodePoint (bytes : List UInt8) : Option SubgroupPoint := do
  let bytes ← Bytes.ofList? 32 bytes
  Primitives.fromBytes bytes

-- A 64-byte certificate: compressed `R`, canonical `S`.
def decodeSignature (bytes : List UInt8) : Option Signature := do
  let bytes ← Bytes.ofList? 64 bytes
  let r ← decodePoint (bytes.toList.take 32)
  let sBytes ← Bytes.ofList? 32 (bytes.toList.drop 32)
  let s ← Signature.scalarFromBytes sBytes
  return ⟨r, s⟩

end

def decodeSiblings : List Accumulator.Node → Option (List F)
  | [] => some []
  | sibling :: rest => do
      let value ← decode sibling.asBytes
      let values ← decodeSiblings rest
      return value :: values

theorem decodeSiblings_eq_some {siblings : List Accumulator.Node} {values : List F} :
    decodeSiblings siblings = some values ↔
      (∀ sibling ∈ siblings, sibling.asBytes.toNatLe < fieldOrder) ∧
        values = siblings.map Accumulator.Node.value := by
  induction siblings generalizing values with
  | nil => simp [decodeSiblings, eq_comm]
  | cons sibling rest ih =>
      simp only [decodeSiblings, decode, Option.bind_eq_bind, Option.bind_eq_some_iff,
        Option.pure_def, Option.some_inj, ih, Field.decode_eq_some, List.forall_mem_cons,
        List.map_cons, Accumulator.Node.value]
      constructor
      · rintro ⟨value, ⟨hlt, rfl⟩, values, ⟨hrest, rfl⟩, rfl⟩
        exact ⟨⟨hlt, hrest⟩, rfl⟩
      · rintro ⟨⟨hlt, hrest⟩, rfl⟩
        exact ⟨_, ⟨hlt, rfl⟩, _, ⟨hrest, rfl⟩, rfl⟩

-- An inclusion witness as the circuit's path: index bits and decoded siblings. The shift takes
-- its amount modulo 64.
def path {depth : Nat} (witness : Accumulator.Witness depth) : Option (Path depth) :=
  match hsiblings : decodeSiblings witness.siblings with
  | none => none
  | some siblings =>
      some {
        siblings := siblings
        bits := (List.range depth).map fun level => witness.index.testBit (level % 64)
        length_siblings := by
          rw [(decodeSiblings_eq_some.1 hsiblings).2, List.length_map, witness.length_siblings]
        length_bits := by rw [List.length_map, List.length_range] }

-- A gap-tree absence witness, field-native.
def absence {depth : Nat} (witness : Accumulator.AbsenceWitness depth) :
    Option (AbsenceWitness depth) := do
  let low ← decode witness.low
  let high ← decode witness.high
  let path ← path witness.witness
  return ⟨low, high, path⟩

section

variable [Primitives] {depth : Nat}

-- The tag, the context and the output an action is constrained against.
def actionInstance : Circuits.Action → Option (Nat × F × F)
  | .Authorship messageHash nullifier => do
      let output ← decode nullifier.asBytes
      return (FieldDomain.ActionTag.AUTHORSHIP, bridge (Field.fromId messageHash.asBytes), output)
  | .Vouch sessionId nullifier => do
      let output ← decode nullifier.asBytes
      return (FieldDomain.ActionTag.VOUCH, bridge (Field.fromContextBytes sessionId), output)
  | .PolicyApproval proposalId nullifier => do
      let output ← decode nullifier.asBytes
      return (FieldDomain.ActionTag.POLICY, bridge (Field.fromContextBytes proposalId), output)
  | .LiveAuth context pseudonym => do
      let output ← decode pseudonym.asBytes
      return (FieldDomain.ActionTag.LIVE_AUTH, bridge (Field.fromId context.asBytes), output)
  | .VerificationAccess challenge =>
      some (FieldDomain.ActionTag.VERIFICATION, bridge (Field.fromContextBytes challenge),
        Field.ofNat 0)

-- The instance an ordinary proof is constrained against.
def chainInstance (inputs : Circuits.ChainPublicInputs) : Option ChainInstance := do
  let (tag, context, output) ← actionInstance inputs.action
  return {
    agora := bridge (Field.fromId inputs.agora.asBytes)
    epoch := Field.ofNat inputs.epoch.get
    classRoot := ← decode inputs.classRoot.asBytes
    revocationRoot := ← decode inputs.revocationRoot.asBytes
    spendRoot := ← decode inputs.spendRoot.asBytes
    actionTag := Field.ofNat tag
    actionContext := context
    actionOutput := output }

def chainWitness (witness : Circuits.ChainWitness depth) : Option (ChainWitness depth) := do
  return {
    epochKeyBytes := witness.epochKey.expose
    epochPublicKey := ← decodePoint witness.epochPublicKey
    epochCertificate := ← decodeSignature witness.epochCertSignature
    credentialKey := ← decode witness.credentialKey.expose
    rootOpening := ← decode witness.rootOpening.expose
    rootPublicKey := ← decodePoint witness.rootPublicKey
    classPath := ← path witness.leafWitness
    revocationAbsence := ← absence witness.revocationAbsence
    spendAbsence := ← absence witness.spendAbsence }

def migrationInstance (inputs : Circuits.MigrationPublicInputs) : Option MigrationInstance := do
  return {
    agora := bridge (Field.fromId inputs.agora.asBytes)
    classRoot := ← decode inputs.classRoot.asBytes
    revocationRoot := ← decode inputs.revocationRoot.asBytes
    spendNullifier := ← decode inputs.spendNullifier.asBytes
    successorCommitment := ← decode inputs.successorCommitment.asBytes }

def migrationWitness (witness : Circuits.MigrationWitness depth) :
    Option (MigrationWitness depth) := do
  return {
    oldRootPublicKey := ← decodePoint witness.oldRootPublicKey
    oldRootOpening := ← decode witness.oldRootOpening.expose
    credentialKey := ← decode witness.credentialKey.expose
    oldClassPath := ← path witness.oldLeafWitness
    migrationCertificate := ← decodeSignature witness.migrationCertSignature
    successorPublicKey := ← decodePoint witness.successorPublicKey
    successorOpening := ← decode witness.successorOpening.expose
    revocationAbsence := ← absence witness.revocationAbsence }

def inboxInstance (inputs : Circuits.InboxPublicInputs) : Option InboxInstance := do
  return {
    agora := bridge (Field.fromId inputs.agora.asBytes)
    leaf := ← decode inputs.leaf.asBytes
    inboxKey := bridge (Field.fromId inputs.inboxPublicKey.asBytes)
    action := Field.ofNat inputs.action.tag }

def inboxWitness (witness : Circuits.InboxWitness) : Option InboxWitness := do
  return {
    rootPublicKey := ← decodePoint witness.rootPublicKey
    rootOpening := ← decode witness.rootOpening.expose
    credentialKey := ← decode witness.credentialKey.expose
    certificate := ← decodeSignature witness.inboxCertSignature }

end

inductive ProveError
  | Unsatisfiable | Backend
deriving DecidableEq

-- One statement's key pair: the proving library's `prove` and `verify` under it.
structure Keys (Instance Witness : Type) where
  prove : Instance → Witness → Option (List UInt8)
  verify : Instance → List UInt8 → Bool

structure Backend [Primitives] (depth : Nat) where
  chain : Keys ChainInstance (ChainWitness depth)
  migration : Keys MigrationInstance (MigrationWitness depth)
  inbox : Keys InboxInstance InboxWitness

-- A witness is checked against its statement first, so that an unsatisfiable one is refused.
def proveSatisfied {Instance Witness : Type} (satisfies : Witness → Instance → Bool)
    (keys : Keys Instance Witness) (witness : Witness) (inst : Instance) :
    Except ProveError (List UInt8) := do
  if ¬ satisfies witness inst then throw .Unsatisfiable
  match keys.prove inst witness with
  | some proof => return proof
  | none => throw .Backend

def proveError : ProveError → ProtocolError
  | .Unsatisfiable => .Malformed
  | .Backend => .Unavailable

-- The three operations every statement has behind the trait: both conversions, then the keys.
def proveConverted {Instance Witness : Type} (satisfies : Witness → Instance → Bool)
    (keys : Keys Instance Witness) (inst : Option Instance) (witness : Option Witness) :
    Except ProtocolError (List UInt8) :=
  match inst, witness with
  | some inst, some witness => (proveSatisfied satisfies keys witness inst).mapError proveError
  | _, _ => .error .Malformed

def verifyConverted {Instance Witness : Type} (keys : Keys Instance Witness)
    (inst : Option Instance) (proof : List UInt8) : Bool :=
  match inst with
  | some inst => keys.verify inst proof
  | none => false

-- The real backend behind the boundary.
def Backend.proofSystem [Primitives] {depth : Nat} (backend : Backend depth) :
    Circuits.ProofSystem depth where
  Proof := List UInt8
  MigrationProof := List UInt8
  InboxProof := List UInt8
  prove witness inputs :=
    proveConverted satisfiesChain backend.chain (chainInstance inputs) (chainWitness witness)
  verify proof inputs := verifyConverted backend.chain (chainInstance inputs) proof
  proveMigration witness inputs :=
    proveConverted satisfiesMigration backend.migration (migrationInstance inputs)
      (migrationWitness witness)
  verifyMigration proof inputs :=
    verifyConverted backend.migration (migrationInstance inputs) proof
  proveInbox witness inputs :=
    proveConverted satisfiesInbox backend.inbox (inboxInstance inputs) (inboxWitness witness)
  verifyInbox proof inputs := verifyConverted backend.inbox (inboxInstance inputs) proof

end Nymora.Plonk
