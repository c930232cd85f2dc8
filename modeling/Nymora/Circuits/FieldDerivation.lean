import Nymora.Accumulator.Exclusion
import Nymora.Crypto.Credential
import Nymora.Crypto.Reference

namespace Nymora.Circuits

open Nymora.Core
open Nymora.Crypto
open Nymora.Accumulator

-- Every derivation the field hash makes, with the arguments its function takes.
inductive FieldDerivation [Primitives]
  | node (left right : Node)
  | challenge (r pk : SubgroupPoint) (message : F)
  | leaf (pkRoot : SubgroupPoint) (credentialKey : CredentialKey) (opening : RootOpening)
      (agora : AgoraId)
  | gapLeaf (low high : Bytes 32)
  | action (tag : Nat) (key context : F) (agora : AgoraId)
  | epochCert (agora : AgoraId) (epoch : Epoch) (epochPublicKey : SubgroupPoint)
  | migrationCert (agora : AgoraId) (successorPublicKey : SubgroupPoint)
  | spend (key : CredentialKey) (leaf : Commitment) (agora : AgoraId)
  | nonce (secret : JubjubScalar) (message : F)
  | revocation (leaf : Commitment)
  | inboxCert (agora : AgoraId) (action : InboxAction) (inboxPublicKey : Bytes 32)

inductive DerivationKind
  | Node | Challenge | Leaf | GapLeaf | Action | EpochCert | MigrationCert | Spend | Nonce
  | Revocation | InboxCert
deriving DecidableEq

namespace DerivationKind

-- The registered tag; the node and the challenge go without one.
def tag? : DerivationKind → Option Nat
  | Node => none
  | Challenge => none
  | Leaf => some FieldDomain.LEAF
  | GapLeaf => some FieldDomain.GAP
  | Action => some FieldDomain.ACTION
  | EpochCert => some FieldDomain.EPOCH_CERT
  | MigrationCert => some FieldDomain.MIGRATION_CERT
  | Spend => some FieldDomain.SPEND
  | Nonce => some FieldDomain.NONCE
  | Revocation => some FieldDomain.REVOKE
  | InboxCert => some FieldDomain.INBOX_CERT

-- The number of elements hashed, the tag among them.
def arity : DerivationKind → Nat
  | Node => 2
  | Challenge => 5
  | Leaf => 6
  | GapLeaf => 3
  | Action => 5
  | EpochCert => 5
  | MigrationCert => 4
  | Spend => 4
  | Nonce => 3
  | Revocation => 2
  | InboxCert => 4

theorem tag?_inj {left right : DerivationKind} {tag : Nat} (hleft : left.tag? = some tag)
    (hright : right.tag? = some tag) : left = right := by
  have hsame := hleft.trans hright.symm
  cases left <;> cases right <;> first
    | rfl
    | exact absurd hsame (by decide)
    | cases hleft

theorem tag_lt {kind : DerivationKind} {tag : Nat} (htag : kind.tag? = some tag) :
    tag < fieldOrder := by
  cases kind <;> first
    | (obtain rfl := Option.some_inj.1 htag; decide)
    | cases htag

-- An untagged kind shares its arity with these tagged kinds only.
theorem shares_arity {untagged tagged : DerivationKind} (huntagged : untagged.tag? = none)
    (hother : tagged ≠ untagged) (harity : untagged.arity = tagged.arity) :
    (untagged = Node ∧ tagged = Revocation) ∨ (untagged = Challenge ∧ tagged = Action) ∨
      (untagged = Challenge ∧ tagged = EpochCert) := by
  cases untagged with
  | Node => cases tagged <;> simp [arity] at harity hother ⊢
  | Challenge => cases tagged <;> simp [arity] at harity hother ⊢
  | _ => cases huntagged

end DerivationKind

variable [Primitives]

namespace FieldDerivation

def kind : FieldDerivation → DerivationKind
  | node _ _ => .Node
  | challenge _ _ _ => .Challenge
  | leaf _ _ _ _ => .Leaf
  | gapLeaf _ _ => .GapLeaf
  | action _ _ _ _ => .Action
  | epochCert _ _ _ => .EpochCert
  | migrationCert _ _ => .MigrationCert
  | spend _ _ _ => .Spend
  | nonce _ _ => .Nonce
  | revocation _ => .Revocation
  | inboxCert _ _ _ => .InboxCert

def point (point : SubgroupPoint) : List F :=
  [(Primitives.coordinates point).1, (Primitives.coordinates point).2]

-- The arguments as they enter the field.
def fields : FieldDerivation → List F
  | node left right => [left.value, right.value]
  | challenge r pk message => point r ++ point pk ++ [message]
  | leaf pkRoot credentialKey opening agora =>
      point pkRoot ++ [Field.fromWitnessBytes credentialKey.expose,
        Field.fromWitnessBytes opening.expose, Field.fromId agora.asBytes]
  | gapLeaf low high => [Field.fromWitnessBytes low, Field.fromWitnessBytes high]
  | action tag key context agora => [Field.ofNat tag, key, context, Field.fromId agora.asBytes]
  | epochCert agora epoch epochPublicKey =>
      [Field.fromId agora.asBytes, Field.fromEpoch epoch] ++ point epochPublicKey
  | migrationCert agora successorPublicKey =>
      Field.fromId agora.asBytes :: point successorPublicKey
  | spend key commitment agora =>
      [Field.fromWitnessBytes key.expose, Field.fromWitnessBytes commitment.asBytes,
        Field.fromId agora.asBytes]
  | nonce secret message => [Signature.scalarAsField secret, message]
  | revocation commitment => [Field.fromWitnessBytes commitment.asBytes]
  | inboxCert agora instruction inboxPublicKey =>
      [Field.fromId agora.asBytes, Field.ofNat instruction.tag, Field.fromId inboxPublicKey]

-- The vector hashed: the tag, where there is one, then the arguments.
def vector (derivation : FieldDerivation) : List F :=
  (derivation.kind.tag?.map Field.ofNat).toList ++ derivation.fields

def value (derivation : FieldDerivation) : F := Poseidon.hash derivation.vector

-- What the functions of the source hash, one derivation each.
theorem hashNode_eq (left right : Node) :
    hashNode left right = .fromBytes (Field.toBytes (node left right).value) := rfl

theorem challenge_eq (r pk : SubgroupPoint) (message : F) :
    Signature.challenge r pk message = (challenge r pk message).value := rfl

theorem commit_eq_value {pkRoot : List UInt8} {key : Bytes 32} {pk : SubgroupPoint}
    (hkey : Bytes.ofList? 32 pkRoot = some key) (hpoint : Primitives.fromBytes key = some pk)
    (credentialKey : CredentialKey) (opening : RootOpening) (agora : AgoraId) :
    commit pkRoot credentialKey opening agora =
      some (.fromBytes (Field.toBytes (leaf pk credentialKey opening agora).value)) := by
  simp only [commit, Option.bind_eq_bind, hkey, hpoint, Option.bind_some, Option.pure_def]
  rfl

theorem gapLeaf_eq (low high : Bytes 32) :
    Accumulator.gapLeaf low high = (gapLeaf low high).value := rfl

theorem actionOutput_eq (tag : Nat) (key context : F) (agora : AgoraId) :
    Nullifier.actionOutput tag key context agora =
      .fromBytes (Field.toBytes (action tag key context agora).value) := rfl

theorem pseudonym_eq (key : EpochSecretKey) (context : SessionContext) (agora : AgoraId) :
    LiveAuth.pseudonym key context agora = .fromBytes (Field.toBytes
      (action FieldDomain.ActionTag.LIVE_AUTH (Field.fromWitnessBytes key.expose)
        (Field.fromId context.asBytes) agora).value) := rfl

theorem migration_eq (key : CredentialKey) (commitment : Commitment) (agora : AgoraId) :
    Nullifier.migration key commitment agora =
      .fromBytes (Field.toBytes (spend key commitment agora).value) := rfl

theorem revocationKey_eq (commitment : Commitment) :
    revocationKey commitment = Field.toBytes (revocation commitment).value := rfl

theorem epochCertMessage_eq {epochPublicKey : List UInt8} {key : Bytes 32} {pk : SubgroupPoint}
    (hkey : Bytes.ofList? 32 epochPublicKey = some key) (hpoint : Primitives.fromBytes key = some pk)
    (agora : AgoraId) (epoch : Epoch) :
    Signature.epochCertMessage agora epoch epochPublicKey =
      some (epochCert agora epoch pk).value := by
  simp only [Signature.epochCertMessage, Signature.decodePoint, Option.bind_eq_bind, hkey, hpoint,
    Option.bind_some, Option.pure_def]
  rfl

theorem migrationCertMessage_eq {successorPublicKey : List UInt8} {key : Bytes 32}
    {pk : SubgroupPoint} (hkey : Bytes.ofList? 32 successorPublicKey = some key)
    (hpoint : Primitives.fromBytes key = some pk) (agora : AgoraId) :
    Signature.migrationCertMessage agora successorPublicKey =
      some (migrationCert agora pk).value := by
  simp only [Signature.migrationCertMessage, Signature.decodePoint, Option.bind_eq_bind, hkey,
    hpoint, Option.bind_some, Option.pure_def]
  rfl

theorem inboxCertMessage_eq {inboxPublicKey : List UInt8} {key : Bytes 32}
    (hkey : Bytes.ofList? 32 inboxPublicKey = some key) (agora : AgoraId)
    (instruction : InboxAction) :
    Signature.inboxCertMessage agora instruction inboxPublicKey =
      some (inboxCert agora instruction key).value := by
  simp only [Signature.inboxCertMessage, Option.bind_eq_bind, hkey, Option.bind_some,
    Option.pure_def]
  rfl

theorem sign_eq {sk : Bytes 32} {secret : JubjubScalar}
    (hsecret : Signature.scalarFromBytes sk = some secret) (message : F) :
    let k := Signature.reduce (nonce secret message).value
    let r := Primitives.mul Primitives.generator k
    let pk := Primitives.mul Primitives.generator secret
    Signature.sign sk message = some ((Primitives.toBytes r).append (Signature.scalarToBytes
      (k + Signature.reduce (challenge r pk message).value * secret))) := by
  simp only [Signature.sign, Option.bind_eq_bind, hsecret, Option.bind_some, Option.pure_def]
  rfl

theorem length_vector (derivation : FieldDerivation) :
    derivation.vector.length = derivation.kind.arity := by cases derivation <;> rfl

-- The three ways an untagged vector is a tagged one: a node whose left child is the revocation
-- tag, and a challenge whose nonce point has the action's or the epoch certificate's tag as its
-- first coordinate.
inductive Shadows : FieldDerivation → FieldDerivation → Prop
  | node {left right : Node} {commitment : Commitment} :
      left.value = Field.ofNat FieldDomain.REVOKE →
      right.value = Field.fromWitnessBytes commitment.asBytes →
      Shadows (node left right) (revocation commitment)
  | challengeAction {r pk : SubgroupPoint} {message key context : F} {tag : Nat}
      {agora : AgoraId} :
      Primitives.coordinates r = (Field.ofNat FieldDomain.ACTION, Field.ofNat tag) →
      Primitives.coordinates pk = (key, context) → message = Field.fromId agora.asBytes →
      Shadows (challenge r pk message) (action tag key context agora)
  | challengeEpochCert {r pk epochPublicKey : SubgroupPoint} {message : F} {agora : AgoraId}
      {epoch : Epoch} :
      Primitives.coordinates r =
        (Field.ofNat FieldDomain.EPOCH_CERT, Field.fromId agora.asBytes) →
      Primitives.coordinates pk =
        (Field.fromEpoch epoch, (Primitives.coordinates epochPublicKey).1) →
      message = (Primitives.coordinates epochPublicKey).2 →
      Shadows (challenge r pk message) (epochCert agora epoch epochPublicKey)

theorem Shadows.collides {left right : FieldDerivation} (hshadows : Shadows left right) :
    left.vector = right.vector ∧ left.kind ≠ right.kind := by
  cases hshadows with
  | node hleft hright =>
      refine ⟨?_, by simp [kind]⟩
      change [_, _] = [_, _]
      rw [hleft, hright]
  | challengeAction hr hpk hmessage =>
      refine ⟨?_, by simp [kind]⟩
      change [_, _, _, _, _] = [_, _, _, _, _]
      rw [hr, hpk, hmessage]
  | challengeEpochCert hr hpk hmessage =>
      refine ⟨?_, by simp [kind]⟩
      change [_, _, _, _, _] = [_, _, _, _, _]
      rw [hr, hpk, hmessage]

theorem shadows_of_untagged {left right : FieldDerivation} (huntagged : left.kind.tag? = none)
    (hkinds : right.kind ≠ left.kind) (hsame : left.vector = right.vector) :
    Shadows left right := by
  have harity : left.kind.arity = right.kind.arity := by
    rw [← length_vector, ← length_vector, hsame]
  rcases DerivationKind.shares_arity huntagged hkinds harity with
    ⟨hleft, hright⟩ | ⟨hleft, hright⟩ | ⟨hleft, hright⟩
  · cases left with
    | node first second =>
        cases right with
        | revocation commitment =>
            have hparts : [first.value, second.value] = [Field.ofNat FieldDomain.REVOKE,
              Field.fromWitnessBytes commitment.asBytes] := hsame
            simp only [List.cons.injEq, and_true] at hparts
            exact .node hparts.1 hparts.2
        | _ => cases hright
    | _ => cases hleft
  · cases left with
    | challenge r pk message =>
        cases right with
        | action tag key context agora =>
            have hparts : [(Primitives.coordinates r).1, (Primitives.coordinates r).2,
              (Primitives.coordinates pk).1, (Primitives.coordinates pk).2, message] =
              [Field.ofNat FieldDomain.ACTION, Field.ofNat tag, key, context,
                Field.fromId agora.asBytes] := hsame
            simp only [List.cons.injEq, and_true] at hparts
            obtain ⟨hrx, hry, hpx, hpy, hmessage⟩ := hparts
            exact .challengeAction (Prod.ext hrx hry) (Prod.ext hpx hpy) hmessage
        | _ => cases hright
    | _ => cases hleft
  · cases left with
    | challenge r pk message =>
        cases right with
        | epochCert agora epoch epochPublicKey =>
            have hparts : [(Primitives.coordinates r).1, (Primitives.coordinates r).2,
              (Primitives.coordinates pk).1, (Primitives.coordinates pk).2, message] =
              [Field.ofNat FieldDomain.EPOCH_CERT, Field.fromId agora.asBytes,
                Field.fromEpoch epoch, (Primitives.coordinates epochPublicKey).1,
                (Primitives.coordinates epochPublicKey).2] := hsame
            simp only [List.cons.injEq, and_true] at hparts
            obtain ⟨hrx, hry, hpx, hpy, hmessage⟩ := hparts
            exact .challengeEpochCert (Prod.ext hrx hry) (Prod.ext hpx hpy) hmessage
        | _ => cases hright
    | _ => cases hleft

theorem kind_eq_of_tagged {left right : FieldDerivation} {tag other : Nat}
    (hleft : left.kind.tag? = some tag) (hright : right.kind.tag? = some other)
    (hsame : left.vector = right.vector) : left.kind = right.kind := by
  rw [vector, vector, hleft, hright] at hsame
  simp only [Option.map_some, Option.toList_some, List.cons_append, List.cons.injEq] at hsame
  have hheads := hsame.1
  have htags := Field.ofNat_inj (DerivationKind.tag_lt hleft) (DerivationKind.tag_lt hright) hheads
  rw [← htags] at hright
  exact DerivationKind.tag?_inj hleft hright

theorem fields_eq_of_kind {left right : FieldDerivation} (hkind : left.kind = right.kind)
    (hsame : left.vector = right.vector) : left.fields = right.fields := by
  rw [vector, vector, hkind] at hsame
  exact List.append_cancel_left hsame

-- Where the registry separates: two derivations hash one vector only when they are of one kind
-- with equal arguments, unless one shadows the other; and with a hash injective on the two, so
-- for their values.
theorem derivations_separate (left right : FieldDerivation) :
    ((left.vector = right.vector → left.kind = right.kind ∧ left.fields = right.fields) ↔
      ¬ (Shadows left right ∨ Shadows right left)) ∧
    ((left.value = right.value → left.vector = right.vector) →
      ((left.value = right.value → left.kind = right.kind ∧ left.fields = right.fields) ↔
        ¬ (Shadows left right ∨ Shadows right left))) := by
  have hseparate : (left.vector = right.vector →
      left.kind = right.kind ∧ left.fields = right.fields) ↔
        ¬ (Shadows left right ∨ Shadows right left) := by
    constructor
    · intro hseparates hshadows
      rcases hshadows with hshadows | hshadows
      · obtain ⟨hsame, hkinds⟩ := hshadows.collides
        exact hkinds (hseparates hsame).1
      · obtain ⟨hsame, hkinds⟩ := hshadows.collides
        exact hkinds (hseparates hsame.symm).1.symm
    · intro hclear hsame
      by_cases hkind : left.kind = right.kind
      · exact ⟨hkind, fields_eq_of_kind hkind hsame⟩
      · exfalso
        cases hleft : left.kind.tag? with
        | none => exact hclear (Or.inl (shadows_of_untagged hleft (Ne.symm hkind) hsame))
        | some tag =>
            cases hright : right.kind.tag? with
            | none => exact hclear (Or.inr (shadows_of_untagged hright hkind hsame.symm))
            | some other => exact hkind (kind_eq_of_tagged hleft hright hsame)
  refine ⟨hseparate, ?_⟩
  intro hinjective
  rw [← hseparate]
  constructor
  · intro hvalues hsame
    exact hvalues (congrArg Poseidon.hash hsame)
  · intro hvectors hsame
    exact hvectors (hinjective hsame)

end FieldDerivation

end Nymora.Circuits

namespace Nymora.Circuits.FieldDerivation.Sample

open Nymora.Core
open Nymora.Crypto
open Nymora.Accumulator
open scoped Nymora.Crypto.Reference

def tagged : Node := .fromBytes (Bytes.ofNatLe 32 FieldDomain.REVOKE)

def member : Commitment := .fromBytes (Bytes.ofNatLe 32 5)

-- A node whose left child is the element 8 is the revocation entry of its right child.
theorem node_stands_for_revocation :
    (node tagged (.fromBytes member.asBytes)).vector = (revocation member).vector ∧
      (node tagged (.fromBytes member.asBytes)).kind ≠ (revocation member).kind ∧
      (hashNode tagged (.fromBytes member.asBytes)).asBytes = revocationKey member := by
  decide +kernel

end Nymora.Circuits.FieldDerivation.Sample
