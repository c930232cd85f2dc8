import Nymora.Circuits.Stub.Theorems
import Nymora.Crypto.Reference

namespace Nymora.Circuits

open Nymora.Core
open Nymora.Crypto
open Nymora.Accumulator

variable [Primitives] {depth : Nat}

-- What an action's output is derived from: the tag, the context's field element, the output
-- claimed, and whether the epoch key counts it or the credential key.
structure Derivation where
  tag : Nat
  context : F
  output : Bytes 32
  epochal : Bool

def Action.derivation? : Action → Option Derivation
  | .Authorship messageHash nullifier =>
      some ⟨FieldDomain.ActionTag.AUTHORSHIP, Field.fromId messageHash.asBytes,
        nullifier.asBytes, true⟩
  | .Vouch sessionId nullifier =>
      some ⟨FieldDomain.ActionTag.VOUCH, Field.fromContextBytes sessionId, nullifier.asBytes,
        false⟩
  | .PolicyApproval proposalId nullifier =>
      some ⟨FieldDomain.ActionTag.POLICY, Field.fromContextBytes proposalId, nullifier.asBytes,
        false⟩
  | .LiveAuth context pseudonym =>
      some ⟨FieldDomain.ActionTag.LIVE_AUTH, Field.fromId context.asBytes, pseudonym.asBytes,
        true⟩
  | .VerificationAccess _ => none

theorem tag_lt_of_derivation? {action : Action} {derivation : Derivation}
    (hderives : action.derivation? = some derivation) : derivation.tag < fieldOrder := by
  cases action with
  | VerificationAccess challenge => cases hderives
  | _ =>
      obtain rfl := Option.some_inj.1 hderives
      dsimp only
      decide

namespace ChainWitness

def opening (witness : ChainWitness depth) : Opening :=
  ⟨witness.rootPublicKey, witness.credentialKey, witness.rootOpening⟩

def countingKey (witness : ChainWitness depth) (derivation : Derivation) : F :=
  if derivation.epochal then Field.fromWitnessBytes witness.epochKey.expose
  else Field.fromWitnessBytes witness.credentialKey.expose

def actionInput (witness : ChainWitness depth) (agora : AgoraId) (derivation : Derivation) :
    List F :=
  [Field.ofNat FieldDomain.ACTION, Field.ofNat derivation.tag, witness.countingKey derivation,
    derivation.context, Field.fromId agora.asBytes]

-- What a verifier hashes to recompute the leaf, its path, both gaps and the action's output.
def queries (witness : ChainWitness depth) (inputs : ChainPublicInputs) : List (List F) :=
  (witness.opening.queries inputs.agora) ++
    (witness.opening.queries inputs.agora).flatMap (fun input =>
      witness.leafWitness.foldQueries (Poseidon.hash input)) ++
    witness.revocationAbsence.queries ++ witness.spendAbsence.queries ++
    (inputs.action.derivation?.map (witness.actionInput inputs.agora)).toList

end ChainWitness

-- The action clause, for all actions at once.
theorem output_of_actionHolds {witness : ChainWitness depth} {inputs : ChainPublicInputs}
    {derivation : Derivation}
    (hholds : actionHolds witness.epochKey witness.credentialKey inputs.agora inputs.action = true)
    (hderives : inputs.action.derivation? = some derivation) :
    derivation.output =
      Field.toBytes (Poseidon.hash (witness.actionInput inputs.agora derivation)) := by
  cases haction : inputs.action with
  | VerificationAccess challenge =>
      rw [haction] at hderives
      cases hderives
  | _ =>
      rw [haction] at hderives hholds
      have hclaimed := of_decide_eq_true hholds
      obtain rfl := Option.some_inj.1 hderives
      rw [hclaimed]
      rfl

-- A chain statement that holds against the roots of a class tree and two exclusion sets.
structure HeldChain (depth : Nat) where
  tree : Tree depth
  revocations : ExclusionSet depth
  spends : ExclusionSet depth
  witness : ChainWitness depth
  inputs : ChainPublicInputs
  -- Positions are 64-bit numbers.
  counted : tree.leaves.length ≤ 2 ^ 64
  classRoot : inputs.classRoot = tree.root
  revocationRoot : inputs.revocationRoot = revocations.root
  spendRoot : inputs.spendRoot = spends.root
  holds : chainHolds witness inputs = true

namespace HeldChain

def agora (held : HeldChain depth) : AgoraId := held.inputs.agora

theorem opens (held : HeldChain depth) : (held.witness.opening.commit held.agora).isSome := by
  obtain ⟨leaf, hleaf, _⟩ := clauses_of_chainHolds held.holds
  rw [Opening.commit, ChainWitness.opening, agora, hleaf]
  rfl

-- The leaf the witness opens.
def leaf (held : HeldChain depth) : Commitment :=
  (held.witness.opening.commit held.agora).get held.opens

def leafValue (held : HeldChain depth) : F := Field.fromWitnessBytes held.leaf.asBytes

def spend (held : HeldChain depth) : Nullifier :=
  Nullifier.migration held.witness.credentialKey held.leaf held.agora

-- What the operator and the verifier hash.
def queries (held : HeldChain depth) : List (List F) :=
  held.tree.rootQueries ++ held.revocations.rootQueries ++ held.spends.rootQueries ++
    held.witness.queries held.inputs

theorem commit_eq (held : HeldChain depth) :
    held.witness.opening.commit held.agora = some held.leaf := (Option.some_get held.opens).symm

theorem clauses (held : HeldChain depth) :
    verifies held.leaf held.witness.leafWitness held.tree.root = true ∧
      verifiesAbsent (revocationKey held.leaf) held.witness.revocationAbsence
        held.revocations.root = true ∧
      verifiesAbsent held.spend.asBytes held.witness.spendAbsence held.spends.root = true ∧
      actionHolds held.witness.epochKey held.witness.credentialKey held.agora
        held.inputs.action = true := by
  obtain ⟨leaf, hleaf, hincluded, hrevocation, hspend, haction⟩ :=
    clauses_of_chainHolds held.holds
  obtain rfl : leaf = held.leaf := Option.some_inj.1 (hleaf.symm.trans held.commit_eq)
  rw [held.classRoot] at hincluded
  rw [held.revocationRoot] at hrevocation
  rw [held.spendRoot] at hspend
  exact ⟨hincluded, hrevocation, hspend, haction⟩

theorem leafValue_eq (held : HeldChain depth) :
    ∃ input ∈ held.witness.opening.queries held.agora, held.leafValue = Poseidon.hash input := by
  obtain ⟨point, hquery, hleaf⟩ := Opening.commit_eq_some held.commit_eq
  exact ⟨_, hquery, by rw [leafValue, hleaf, Field.fromWitnessBytes_toBytes]⟩

theorem mem_queries (held : HeldChain depth) {input : List F} :
    input ∈ held.queries ↔ input ∈ held.tree.rootQueries ∨ input ∈ held.revocations.rootQueries ∨
      input ∈ held.spends.rootQueries ∨ input ∈ held.witness.opening.queries held.agora ∨
      (∃ opened ∈ held.witness.opening.queries held.agora,
        input ∈ held.witness.leafWitness.foldQueries (Poseidon.hash opened)) ∨
      input ∈ held.witness.revocationAbsence.queries ∨ input ∈ held.witness.spendAbsence.queries ∨
      ∃ derivation, held.inputs.action.derivation? = some derivation ∧
        input = held.witness.actionInput held.agora derivation := by
  simp only [queries, ChainWitness.queries, agora, List.mem_append, List.mem_flatMap,
    Option.mem_toList, Option.map_eq_some_iff, or_assoc]
  grind

-- The opened leaf stands in the tree at the witness's index.
theorem included (held : HeldChain depth) (hfree : Poseidon.CollisionFree held.queries) :
    ∃ value, held.tree.leaves[held.witness.leafWitness.index]? = some value ∧
      Field.fromWitnessBytes value.asBytes = held.leafValue := by
  obtain ⟨hincluded, _⟩ := held.clauses
  obtain ⟨opened, hopened, hvalue⟩ := held.leafValue_eq
  have hoccupied : held.leafValue ≠ 0 := by
    rw [hvalue]
    exact hfree.ne_zero opened (held.mem_queries.2 (by tauto))
  refine Tree.leaf_of_verifies (hfree.mono ?_) hoccupied held.counted hincluded
  intro input hinput
  rw [List.mem_append] at hinput
  apply held.mem_queries.2
  rcases hinput with htree | hfold
  · exact Or.inl htree
  · have hpath : input ∈ held.witness.leafWitness.foldQueries (Poseidon.hash opened) := by
      rwa [← hvalue]
    exact Or.inr (Or.inr (Or.inr (Or.inr (Or.inl ⟨opened, hopened, hpath⟩))))

theorem unrevoked (held : HeldChain depth) (hfree : Poseidon.CollisionFree held.queries) :
    truncateKey (revocationKey held.leaf) ∉ held.revocations.keys := by
  intro hrevoked
  obtain ⟨_, habsent, _⟩ := held.clauses
  have hrefused := ExclusionSet.not_verifiesAbsent_of_mem hrevoked held.witness.revocationAbsence
    (hfree.mono (by
      intro input hinput
      rw [List.mem_append] at hinput
      exact held.mem_queries.2 (by tauto)))
  rw [hrefused] at habsent
  exact Bool.false_ne_true habsent

theorem unspent (held : HeldChain depth) (hfree : Poseidon.CollisionFree held.queries) :
    truncateKey held.spend.asBytes ∉ held.spends.keys := by
  intro hspent
  obtain ⟨_, _, habsent, _⟩ := held.clauses
  have hrefused := ExclusionSet.not_verifiesAbsent_of_mem hspent held.witness.spendAbsence
    (hfree.mono (by
      intro input hinput
      rw [List.mem_append] at hinput
      exact held.mem_queries.2 (by tauto)))
  rw [hrefused] at habsent
  exact Bool.false_ne_true habsent

-- Whatever bytes two witnesses present, one leaf element gives them one credential key element
-- and one agora element, and the counted nullifiers depend on nothing else.
theorem same_counts {first second : HeldChain depth}
    (hfree : Poseidon.CollisionFree (first.queries ++ second.queries))
    (hleaf : first.leafValue = second.leafValue) (identifier : List UInt8) :
    Nullifier.vouch first.witness.credentialKey identifier first.agora =
        Nullifier.vouch second.witness.credentialKey identifier second.agora ∧
      Nullifier.policy first.witness.credentialKey identifier first.agora =
        Nullifier.policy second.witness.credentialKey identifier second.agora := by
  have hopenings : Poseidon.CollisionFree (first.witness.opening.queries first.agora ++
      second.witness.opening.queries second.agora) := by
    apply hfree.mono
    intro input hinput
    rw [List.mem_append] at hinput ⊢
    exact hinput.imp (fun hopened => first.mem_queries.2 (by tauto))
      (fun hopened => second.mem_queries.2 (by tauto))
  obtain ⟨hkey, hagora⟩ := Opening.binds first.commit_eq second.commit_eq hleaf hopenings
  simp only [ChainWitness.opening] at hkey
  unfold Nullifier.vouch Nullifier.policy Nullifier.actionOutput
  rw [hkey, hagora]
  exact ⟨rfl, rfl⟩

theorem actionInput_mem (held : HeldChain depth) {derivation : Derivation}
    (hderivation : held.inputs.action.derivation? = some derivation) :
    held.witness.actionInput held.agora derivation ∈ held.queries := by
  rw [held.mem_queries]
  exact Or.inr (Or.inr (Or.inr (Or.inr (Or.inr (Or.inr (Or.inr ⟨derivation, hderivation, rfl⟩))))))

-- Derivations that differ in the tag or the context differ in their output.
theorem outputs_separate {first second : HeldChain depth} {derived other : Derivation}
    (hfree : Poseidon.CollisionFree (first.queries ++ second.queries))
    (hderived : first.inputs.action.derivation? = some derived)
    (hother : second.inputs.action.derivation? = some other)
    (hsame : derived.output = other.output) :
    derived.tag = other.tag ∧ derived.context = other.context := by
  have hfirst := output_of_actionHolds first.clauses.2.2.2 hderived
  have hsecond := output_of_actionHolds second.clauses.2.2.2 hother
  rw [hfirst, hsecond, Field.toBytes_inj] at hsame
  have hinputs := hfree.inj _
    (List.mem_append_left _ (first.actionInput_mem hderived))
    _ (List.mem_append_right _ (second.actionInput_mem hother)) rfl hsame
  simp only [ChainWitness.actionInput, List.cons.injEq, true_and] at hinputs
  have htag := Field.ofNat_inj (tag_lt_of_derivation? hderived) (tag_lt_of_derivation? hother)
    hinputs.1
  exact ⟨htag, hinputs.2.2.1⟩

theorem vouch_eq {held : HeldChain depth} {sessionId : List UInt8} {claimed : Nullifier}
    (haction : held.inputs.action = .Vouch sessionId claimed) :
    claimed = Nullifier.vouch held.witness.credentialKey sessionId held.agora := by
  have hholds := held.clauses.2.2.2
  rw [haction] at hholds
  exact of_decide_eq_true hholds

theorem policy_eq {held : HeldChain depth} {proposalId : List UInt8} {claimed : Nullifier}
    (haction : held.inputs.action = .PolicyApproval proposalId claimed) :
    claimed = Nullifier.policy held.witness.credentialKey proposalId held.agora := by
  have hholds := held.clauses.2.2.2
  rw [haction] at hholds
  exact of_decide_eq_true hholds

-- Chain soundness, and one credential one count.
theorem chains_are_sound_and_count_once (first second : HeldChain depth)
    (hfree : Poseidon.CollisionFree (first.queries ++ second.queries)) :
    ((∃ value, first.tree.leaves[first.witness.leafWitness.index]? = some value ∧
        Field.fromWitnessBytes value.asBytes = first.leafValue) ∧
      truncateKey (revocationKey first.leaf) ∉ first.revocations.keys ∧
      truncateKey first.spend.asBytes ∉ first.spends.keys) ∧
    (first.leafValue = second.leafValue →
      (∀ identifier,
        Nullifier.vouch first.witness.credentialKey identifier first.agora =
            Nullifier.vouch second.witness.credentialKey identifier second.agora ∧
          Nullifier.policy first.witness.credentialKey identifier first.agora =
            Nullifier.policy second.witness.credentialKey identifier second.agora) ∧
      (∀ sessionId claimed other, first.inputs.action = .Vouch sessionId claimed →
        second.inputs.action = .Vouch sessionId other → claimed = other) ∧
      ∀ proposalId claimed other, first.inputs.action = .PolicyApproval proposalId claimed →
        second.inputs.action = .PolicyApproval proposalId other → claimed = other) ∧
    ∀ derived other, first.inputs.action.derivation? = some derived →
      second.inputs.action.derivation? = some other →
      derived.tag ≠ other.tag ∨ derived.context ≠ other.context →
        derived.output ≠ other.output := by
  have hown : Poseidon.CollisionFree first.queries := hfree.mono (List.subset_append_left _ _)
  refine ⟨⟨first.included hown, first.unrevoked hown, first.unspent hown⟩, ?_, ?_⟩
  · intro hleaf
    have hcounts := same_counts hfree hleaf
    refine ⟨hcounts, ?_, ?_⟩
    · intro sessionId claimed other hfirst hsecond
      rw [vouch_eq hfirst, vouch_eq hsecond]
      exact (hcounts sessionId).1
    · intro proposalId claimed other hfirst hsecond
      rw [policy_eq hfirst, policy_eq hsecond]
      exact (hcounts proposalId).2
  · intro derived other hderived hother hdiffers hsame
    obtain ⟨htag, hcontext⟩ := outputs_separate hfree hderived hother hsame
    rcases hdiffers with htags | hcontexts
    · exact htags htag
    · exact hcontexts hcontext

end HeldChain

end Nymora.Circuits

namespace Nymora.Circuits.Soundness.Sample

open Nymora.Core
open Nymora.Crypto
open Nymora.Accumulator
open scoped Nymora.Crypto.Reference

def agora : AgoraId := .fromBytes (Bytes.replicate 32 6)

def season : Epoch := .new 7

def rootSecret : Bytes 32 := Bytes.ofNatLe 32 2

def rootKey : Bytes 32 := (Signature.publicKey rootSecret).get (by decide +kernel)

def epochSecret : EpochSecretKey := .new (Bytes.ofNatLe 32 3)

def epochKey : Bytes 32 := (Signature.publicKey epochSecret.expose).get (by decide +kernel)

-- A credential key in its canonical bytes, and the same element spelled past the field order.
def credential : CredentialKey := .new (Bytes.ofNatLe 32 4)

def respelled : CredentialKey := .new (Bytes.ofNatLe 32 (4 + fieldOrder))

def rootOpening : RootOpening := .new (Bytes.ofNatLe 32 5)

def member : Commitment :=
  (commit rootKey.toList credential rootOpening agora).get (by decide +kernel)

def members : Tree 1 := ⟨[member], fun _ => by decide⟩

def certificate : Bytes 64 :=
  ((Signature.epochCertMessage agora season epochKey.toList).bind
    (Signature.sign rootSecret)).get (by decide +kernel)

def absence : AbsenceWitness 1 :=
  ⟨Bytes.zero 32, upperSentinel,
    ((ExclusionSet.new : ExclusionSet 1).tree.witness 0).get (by decide +kernel)⟩

def witness (key : CredentialKey) : ChainWitness 1 where
  epochKey := epochSecret
  epochPublicKey := epochKey.toList
  epochCertSignature := certificate.toList
  credentialKey := key
  rootOpening := rootOpening
  rootPublicKey := rootKey.toList
  leafWitness := (members.witness 0).get (by decide +kernel)
  revocationAbsence := absence
  spendAbsence := absence

def publics (action : Action) : ChainPublicInputs :=
  ⟨agora, season, members.root, (ExclusionSet.new : ExclusionSet 1).root,
    (ExclusionSet.new : ExclusionSet 1).root, action⟩

def vouching : HeldChain 1 where
  tree := members
  revocations := ExclusionSet.new
  spends := ExclusionSet.new
  witness := witness credential
  inputs := publics (.Vouch [1] (Nullifier.vouch credential [1] agora))
  counted := by decide
  classRoot := rfl
  revocationRoot := rfl
  spendRoot := rfl
  holds := by decide +kernel

def approving : HeldChain 1 where
  tree := members
  revocations := ExclusionSet.new
  spends := ExclusionSet.new
  witness := witness respelled
  inputs := publics (.PolicyApproval [1] (Nullifier.policy credential [1] agora))
  counted := by decide
  classRoot := rfl
  revocationRoot := rfl
  spendRoot := rfl
  holds := by decide +kernel

-- The respelled key vouches as the key it respells, and its approval is another nullifier.
theorem chains_are_sound_and_count_once_respelled :
    Nullifier.vouch credential [1] agora = Nullifier.vouch respelled [1] agora ∧
      (Nullifier.vouch credential [1] agora).asBytes ≠
        (Nullifier.policy credential [1] agora).asBytes := by
  have hfree : Poseidon.CollisionFree (vouching.queries ++ approving.queries) := by
    decide +kernel
  have hleaf : vouching.leafValue = approving.leafValue := by decide +kernel
  obtain ⟨_, hcounts, hseparate⟩ := HeldChain.chains_are_sound_and_count_once vouching approving hfree
  refine ⟨((hcounts hleaf).1 [1]).1, ?_⟩
  exact hseparate _ _ rfl rfl (Or.inl (by decide))

end Nymora.Circuits.Soundness.Sample
