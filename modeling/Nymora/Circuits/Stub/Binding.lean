import Nymora.Circuits.Stub.Soundness
import Nymora.Crypto.Hash.Theorems

namespace Nymora.Circuits

open Nymora.Core
open Nymora.Crypto
open Nymora.Accumulator

theorem sized_ok {width : Nat} {bytes : List UInt8} {sizedBytes : Bytes width}
    (hsized : Bytes.ofList? width bytes = some sizedBytes) :
    sized width bytes = .ok sizedBytes := by
  rw [sized, hsized]

-- The frames each binding hashes.
def chainParts (inputs : ChainPublicInputs) : List (List UInt8) :=
  [CHAIN_BINDING.toUTF8.data.toList, inputs.agora.asBytes.toList, inputs.epoch.toLeBytes,
    inputs.classRoot.asBytes.toList, inputs.revocationRoot.asBytes.toList,
    inputs.spendRoot.asBytes.toList] ++ inputs.action.bindingParts

def migrationParts (inputs : MigrationPublicInputs) : List (List UInt8) :=
  [MIGRATION_BINDING.toUTF8.data.toList, inputs.agora.asBytes.toList,
    inputs.classRoot.asBytes.toList, inputs.revocationRoot.asBytes.toList,
    inputs.spendNullifier.asBytes.toList, inputs.successorCommitment.asBytes.toList]

def inboxParts (inputs : InboxPublicInputs) : List (List UInt8) :=
  [INBOX_BINDING.toUTF8.data.toList, inputs.agora.asBytes.toList, inputs.leaf.asBytes.toList,
    inputs.inboxPublicKey.asBytes.toList, LittleEndian.ofNat 8 inputs.action.tag]

theorem Action.bindingParts_inj {left right : Action}
    (hsame : left.bindingParts = right.bindingParts) : left = right := by
  cases left <;> cases right <;>
    simp [Action.bindingParts, Bytes.toList_inj, Digest.asBytes_inj] at hsame ⊢ <;> exact hsame

theorem chainParts_inj {left right : ChainPublicInputs} (hsame : chainParts left = chainParts right) :
    left = right := by
  cases left
  cases right
  simp only [chainParts, List.cons_append, List.cons.injEq, true_and, List.nil_append,
    Bytes.toList_inj, Digest.asBytes_inj] at hsame
  obtain ⟨rfl, hepoch, rfl, rfl, rfl, haction⟩ := hsame
  rw [Epoch.toLeBytes_inj.1 hepoch, Action.bindingParts_inj haction]

theorem migrationParts_inj {left right : MigrationPublicInputs}
    (hsame : migrationParts left = migrationParts right) : left = right := by
  cases left
  cases right
  simp only [migrationParts, List.cons.injEq, true_and, and_true, Bytes.toList_inj,
    Digest.asBytes_inj] at hsame
  obtain ⟨rfl, rfl, rfl, rfl, rfl⟩ := hsame
  rfl

theorem InboxAction.tag_inj {left right : InboxAction}
    (hsame : LittleEndian.ofNat 8 left.tag = LittleEndian.ofNat 8 right.tag) : left = right := by
  cases left <;> cases right <;> first
    | rfl
    | exact absurd hsame (by decide)

theorem inboxParts_inj {left right : InboxPublicInputs}
    (hsame : inboxParts left = inboxParts right) : left = right := by
  cases left
  cases right
  simp only [inboxParts, List.cons.injEq, true_and, and_true, Bytes.toList_inj,
    Digest.asBytes_inj] at hsame
  obtain ⟨rfl, rfl, rfl, haction⟩ := hsame
  rw [InboxAction.tag_inj haction]

-- A slice has a length a machine word counts.
def Addressable (parts : List (List UInt8)) : Prop := ∀ part ∈ parts, part.length < 2 ^ 64

variable [Primitives] {depth : Nat}

-- A signature that verifies is of the scheme's widths.
theorem widths_of_verify {publicKey signature : List UInt8} {message : F}
    (hverify : Signature.verify publicKey message signature = true) :
    (∃ key, Bytes.ofList? 32 publicKey = some key) ∧
      ∃ bytes, Bytes.ofList? 64 signature = some bytes := by
  simp only [Signature.verify, getD_false_eq_true, Option.bind_eq_bind, Option.bind_eq_some_iff]
    at hverify
  obtain ⟨key, hkey, _, _, bytes, hbytes, _⟩ := hverify
  exact ⟨⟨key, hkey⟩, ⟨bytes, hbytes⟩⟩

theorem width_of_migrationCertMessage {agora : AgoraId} {publicKey : List UInt8} {message : F}
    (hmessage : Signature.migrationCertMessage agora publicKey = some message) :
    ∃ key, Bytes.ofList? 32 publicKey = some key := by
  simp only [Signature.migrationCertMessage, Option.bind_eq_bind, Option.bind_eq_some_iff]
    at hmessage
  obtain ⟨key, hkey, _⟩ := hmessage
  exact ⟨key, hkey⟩

-- What holds is proved, and the proof carries the binding and the witness.
theorem prove_of_chainHolds {witness : ChainWitness depth} {inputs : ChainPublicInputs}
    (hholds : chainHolds witness inputs = true) :
    ∃ proof : StubProof depth, (StubProver depth).prove witness inputs = .ok proof ∧
      proof.binding = chainBinding inputs ∧ proof.witness = witness := by
  obtain ⟨pk, _, _, _, hkey, _, hverify, _⟩ := chainHolds_iff.1 hholds
  obtain ⟨⟨root, hroot⟩, ⟨signature, hsignature⟩⟩ := widths_of_verify hverify
  have hepoch : Bytes.ofList? 32 witness.epochPublicKey = some pk :=
    Bytes.ofList?_eq_some.2 hkey.symm
  refine ⟨⟨chainBinding inputs, witness.epochKey, pk, signature, witness.credentialKey,
    witness.rootOpening, root, witness.leafWitness, witness.revocationAbsence,
    witness.spendAbsence⟩, ?_, rfl, ?_⟩
  · simp only [StubProver, hholds, sized_ok hepoch, sized_ok hsignature, sized_ok hroot]
    rfl
  · rw [StubProof.witness, ← Bytes.ofList?_eq_some.1 hepoch, ← Bytes.ofList?_eq_some.1 hsignature,
      ← Bytes.ofList?_eq_some.1 hroot]

theorem prove_of_migrationHolds {witness : MigrationWitness depth}
    {inputs : MigrationPublicInputs} (hholds : migrationHolds witness inputs = true) :
    ∃ proof : MigrationStubProof depth,
      (StubProver depth).proveMigration witness inputs = .ok proof ∧
        proof.binding = migrationBinding inputs ∧ proof.witness = witness := by
  obtain ⟨_, _, _, _, _, _, hmessage, hverify, _⟩ := migrationHolds_iff.1 hholds
  obtain ⟨⟨root, hroot⟩, ⟨signature, hsignature⟩⟩ := widths_of_verify hverify
  obtain ⟨successor, hsuccessor⟩ := width_of_migrationCertMessage hmessage
  refine ⟨⟨migrationBinding inputs, root, witness.oldRootOpening, witness.credentialKey,
    witness.oldLeafWitness, signature, successor, witness.successorOpening,
    witness.revocationAbsence⟩, ?_, rfl, ?_⟩
  · simp only [StubProver, hholds, sized_ok hroot, sized_ok hsignature, sized_ok hsuccessor]
    rfl
  · rw [MigrationStubProof.witness, ← Bytes.ofList?_eq_some.1 hroot,
      ← Bytes.ofList?_eq_some.1 hsignature, ← Bytes.ofList?_eq_some.1 hsuccessor]

theorem prove_of_inboxHolds {witness : InboxWitness} {inputs : InboxPublicInputs}
    (hholds : inboxHolds witness inputs = true) :
    ∃ proof : InboxStubProof, (StubProver depth).proveInbox witness inputs = .ok proof ∧
      proof.binding = inboxBinding inputs ∧ proof.witness = witness := by
  obtain ⟨_, _, _, hverify⟩ := inboxHolds_iff.1 hholds
  obtain ⟨⟨root, hroot⟩, ⟨signature, hsignature⟩⟩ := widths_of_verify hverify
  refine ⟨⟨inboxBinding inputs, root, witness.rootOpening, witness.credentialKey, signature⟩, ?_,
    rfl, ?_⟩
  · simp only [StubProver, hholds, sized_ok hroot, sized_ok hsignature]
    rfl
  · rw [InboxStubProof.witness, ← Bytes.ofList?_eq_some.1 hroot,
      ← Bytes.ofList?_eq_some.1 hsignature]

-- The bindings of two framed lists meet only where the lists do.
theorem parts_eq_of_binding {left right : List (List UInt8)} (hleft : Addressable left)
    (hright : Addressable right)
    (hfree : ByteHasher.CollisionFree [left.flatMap framed, right.flatMap framed])
    (hsame : Primitives.sha256 (left.flatMap framed) = Primitives.sha256 (right.flatMap framed)) :
    left = right := by
  have hstreams := hfree _ List.mem_cons_self _ (List.mem_cons_of_mem _ List.mem_cons_self) hsame
  have hfits : ∀ {parts : List (List UInt8)}, Addressable parts →
      ∀ part ∈ parts, Framing.Fits 8 part := by
    intro parts haddressable part hpart
    have hlength := haddressable part hpart
    unfold Framing.Fits
    omega
  exact Framing.flatMap_frame_inj (by decide) (hfits hleft) (hfits hright) hstreams

-- What a backend owes a statement: it proves exactly what holds, refuses the rest as malformed,
-- and its proof for some inputs is a proof for no others.
def ExactAndBinding {Witness Inputs Proof : Type}
    (prove : Witness → Inputs → Except ProtocolError Proof) (verify : Proof → Inputs → Bool)
    (holds : Witness → Inputs → Bool) (parts : Inputs → List (List UInt8)) : Prop :=
  (∀ witness inputs, ((∃ proof, prove witness inputs = .ok proof) ↔ holds witness inputs = true) ∧
    (holds witness inputs = false → prove witness inputs = .error .Malformed)) ∧
  ∀ witness inputs altered proof, prove witness inputs = .ok proof →
    Addressable (parts inputs) → Addressable (parts altered) →
    ByteHasher.CollisionFree [(parts inputs).flatMap framed, (parts altered).flatMap framed] →
    (verify proof altered = true ↔ altered = inputs)

theorem exactAndBinding {Witness Inputs Proof : Type}
    {prove : Witness → Inputs → Except ProtocolError Proof} {verify : Proof → Inputs → Bool}
    {holds : Witness → Inputs → Bool} {parts : Inputs → List (List UInt8)}
    (hproves : ∀ {witness inputs}, holds witness inputs = true →
      ∃ proof, prove witness inputs = .ok proof ∧ ∀ altered, verify proof altered =
        (decide (Primitives.sha256 ((parts inputs).flatMap framed) =
          Primitives.sha256 ((parts altered).flatMap framed)) && holds witness altered))
    (hrefuses : ∀ {witness inputs}, holds witness inputs = false →
      prove witness inputs = .error .Malformed)
    (hparts : ∀ {left right}, parts left = parts right → left = right) :
    ExactAndBinding prove verify holds parts := by
  refine ⟨?_, ?_⟩
  · intro witness inputs
    refine ⟨⟨?_, ?_⟩, hrefuses⟩
    · intro hproof
      obtain ⟨proof, hproof⟩ := hproof
      by_contra hholds
      rw [hrefuses (Bool.eq_false_iff.2 hholds)] at hproof
      cases hproof
    · intro hholds
      obtain ⟨proof, hproof, _⟩ := hproves hholds
      exact ⟨proof, hproof⟩
  · intro witness inputs altered proof hproof hinputs haltered hfree
    have hholds : holds witness inputs = true := by
      by_contra hholds
      rw [hrefuses (Bool.eq_false_iff.2 hholds)] at hproof
      cases hproof
    obtain ⟨made, hmade, hverify⟩ := hproves hholds
    rw [hproof] at hmade
    cases hmade
    rw [hverify, Bool.and_eq_true, decide_eq_true_eq]
    constructor
    · intro haccepted
      exact (hparts (parts_eq_of_binding hinputs haltered hfree haccepted.1)).symm
    · intro hsame
      rw [hsame]
      exact ⟨rfl, hholds⟩

-- The stub backend is exact and binding for all three statements.
theorem stub_is_exact_and_binding (depth : Nat) :
    ExactAndBinding (StubProver depth).prove (StubProver depth).verify chainHolds chainParts ∧
      ExactAndBinding (StubProver depth).proveMigration (StubProver depth).verifyMigration
        migrationHolds migrationParts ∧
      ExactAndBinding (StubProver depth).proveInbox (StubProver depth).verifyInbox inboxHolds
        inboxParts := by
  refine ⟨exactAndBinding ?_ ?_ chainParts_inj, exactAndBinding ?_ ?_ migrationParts_inj,
    exactAndBinding ?_ ?_ inboxParts_inj⟩
  · intro witness inputs hholds
    obtain ⟨proof, hproof, hbinding, hwitness⟩ := prove_of_chainHolds hholds
    refine ⟨proof, hproof, ?_⟩
    intro altered
    change (decide (proof.binding = chainBinding altered) && chainHolds proof.witness altered) = _
    rw [hbinding, hwitness]
    rfl
  · intro witness inputs hholds
    simp only [StubProver, hholds]
    rfl
  · intro witness inputs hholds
    obtain ⟨proof, hproof, hbinding, hwitness⟩ := prove_of_migrationHolds hholds
    refine ⟨proof, hproof, ?_⟩
    intro altered
    change (decide (proof.binding = migrationBinding altered) &&
      migrationHolds proof.witness altered) = _
    rw [hbinding, hwitness]
    rfl
  · intro witness inputs hholds
    simp only [StubProver, hholds]
    rfl
  · intro witness inputs hholds
    obtain ⟨proof, hproof, hbinding, hwitness⟩ := prove_of_inboxHolds hholds
    refine ⟨proof, hproof, ?_⟩
    intro altered
    change (decide (proof.binding = inboxBinding altered) && inboxHolds proof.witness altered) = _
    rw [hbinding, hwitness]
    rfl
  · intro witness inputs hholds
    simp only [StubProver, hholds]
    rfl

end Nymora.Circuits

namespace Nymora.Circuits.Binding.Sample

open Nymora.Core
open Nymora.Crypto
open Nymora.Circuits.Soundness.Sample
open scoped Nymora.Crypto.Reference

def challenged : ChainPublicInputs := publics (.VerificationAccess [1, 2])

-- The challenge cut one byte earlier, the byte left out nowhere.
def shortened : ChainPublicInputs := publics (.VerificationAccess [1])

theorem stub_is_exact_and_binding_shortened :
    ∃ proof : StubProof 1, (StubProver 1).prove (witness credential) challenged = .ok proof ∧
      (StubProver 1).verify proof challenged = true ∧
      (StubProver 1).verify proof shortened = false := by
  obtain ⟨hexact, hbinding⟩ := (stub_is_exact_and_binding 1).1
  obtain ⟨proof, hproof⟩ := (hexact (witness credential) challenged).1.2 (by decide +kernel)
  have haddressable : Addressable (chainParts challenged) := by
    unfold Addressable
    decide +kernel
  have hshort : Addressable (chainParts shortened) := by
    unfold Addressable
    decide +kernel
  refine ⟨proof, hproof, ?_, ?_⟩
  · exact (hbinding _ _ challenged proof hproof haddressable haddressable (by decide +kernel)).2 rfl
  · rw [← Bool.not_eq_true, hbinding _ _ shortened proof hproof haddressable hshort
      (by decide +kernel)]
    decide +kernel

end Nymora.Circuits.Binding.Sample
