import Nymora.Protocol.Credential.Creation
import Nymora.Protocol.Member.Network
import Nymora.Protocol.Operator.Run.Governance
import Nymora.Protocol.Operator.Run.Subjects
import Nymora.Protocol.Proving.Theorems

namespace Nymora.Protocol

open Nymora.Core
open Nymora.Crypto
open Nymora.Crypto.Signature (SigningSeed)
open Nymora.Accumulator
open Nymora.Circuits
open Nymora.Proofs
open Nymora.Ports
open Operator
open Credential
open Method

section Working

variable {agora : AgoraId} {contents : Contents} {slot : Slot}

theorem loadEpochRecord_working {epoch : Epoch} {size : Nat} {publicKey : Bytes 32}
    {signature : Bytes 64} (hheld : contents (agora, .EpochCert epoch) =
      some (Framing.frame 8 publicKey.toList ++ Framing.frame 8 signature.toList))
    (hsize : 112 ≤ size) :
    loadEpochRecord agora epoch size ⟨contents, []⟩ =
      .ok (some ⟨publicKey.toList, signature.toList⟩) ⟨contents, []⟩ := by
  have hlength : (Framing.frame 8 publicKey.toList ++
      Framing.frame 8 signature.toList).length ≤ size := by
    simp only [Framing.frame, List.length_append, LittleEndian.length_ofNat, Bytes.length_toList]
    omega
  have hpublic : Framing.Fits 8 publicKey.toList := by
    rw [Framing.Fits, Bytes.length_toList]
    decide
  have hsigned : Framing.Fits 8 signature.toList := by
    rw [Framing.Fits, Bytes.length_toList]
    decide
  have hlast : Framing.unframe 8 (Framing.frame 8 signature.toList) =
      some (signature.toList, []) := by
    rw [← List.append_nil (Framing.frame 8 signature.toList)]
    exact Framing.unframe_frame_append hsigned
  have hdecode : EpochRecord.decode (Framing.frame 8 publicKey.toList ++
      Framing.frame 8 signature.toList) = .ok ⟨publicKey.toList, signature.toList⟩ := by
    simp [EpochRecord.decode, Framing.unframe_frame_append hpublic, hlast]
  unfold loadEpochRecord
  rw [bind_eq_ok]
  refine ⟨_, _, load_working hheld hlength, ?_⟩
  simp only [hdecode]
  exact pure_eq_ok.2 ⟨rfl, rfl⟩

end Working

-- What a creation under the software store keeps is what its leaf commits to.
theorem create_software_ok [Primitives] {agora : AgoraId} {keys : SoftwareKeyStore}
    {entropy : CredentialEntropy} {publicKeySize bindingSize : Nat} {start storage : SecureStorage}
    {made : Created publicKeySize bindingSize}
    (hcreate : create agora keys.keyStore entropy publicKeySize bindingSize start =
      .ok made storage) :
    storage.held (agora, .CredentialKey) = some (Field.mintSecret entropy.credentialKey).toList ∧
      storage.held (agora, .RootOpening) = some (Field.mintSecret entropy.rootOpening).toList ∧
      storage.held (agora, .RootPublicKey) = some (keys.root agora).toList ∧
      commit (keys.root agora).toList (.new (Field.mintSecret entropy.credentialKey))
        (.new (Field.mintSecret entropy.rootOpening)) agora = some made.commitment := by
  unfold create at hcreate
  rw [expectOk_bind_eq_ok] at hcreate
  obtain ⟨root, hroot, hcreate⟩ := hcreate
  rw [expect_bind_eq_ok] at hcreate
  obtain ⟨commitment, hcommit, hcreate⟩ := hcreate
  obtain ⟨_, hstore, rfl⟩ := bind_pure_eq_ok.1 hcreate
  obtain ⟨_, hcredential, hopening, hpublic, _⟩ := storeCredentialMaterial_ok hstore
  obtain ⟨hkey, _⟩ := SoftwareKeyStore.createRoot_eq_ok.1 hroot
  rw [hkey] at hcommit hpublic
  exact ⟨hcredential, hopening, hpublic, hcommit⟩

namespace Member

variable {depth : Nat} [Primitives] {member after : Member depth} {epoch : Epoch}
  {credentialKey : CredentialKey} {rootOpening : RootOpening} {seed : SigningSeed}
  {signature : Bytes 64}

-- The durable half of what a member acts by: it opens the member's leaf.
structure Durable (member : Member depth) (credentialKey : CredentialKey)
    (rootOpening : RootOpening) : Prop where
  keyHeld : member.store (member.agora, .CredentialKey) = some credentialKey.expose.toList
  openingHeld : member.store (member.agora, .RootOpening) = some rootOpening.expose.toList
  rootHeld : member.store (member.agora, .RootPublicKey) =
    some (member.keys.root member.agora).toList
  opens : commit (member.keys.root member.agora).toList credentialKey rootOpening member.agora =
    some member.leaf

-- The half of one epoch: a signing key beside the root's certificate of it.
structure Certified (member : Member depth) (epoch : Epoch) (seed : SigningSeed)
    (signature : Bytes 64) : Prop where
  key : member.store (member.agora, .EpochKey epoch) = some seed.expose.toList
  record : member.store (member.agora, .EpochCert epoch) =
    some (Framing.frame 8 seed.publicKey.toList ++ Framing.frame 8 signature.toList)
  signed : SignsMessage (member.keys.root member.agora)
    (Signature.epochCertMessage member.agora epoch seed.publicKey.toList) signature.toList

-- A member that acts in the epoch it last followed.
structure Ready (member : Member depth) : Prop where
  durable : ∃ credentialKey rootOpening, Durable member credentialKey rootOpening ∧
    CanonicalSecret credentialKey.expose.toList ∧ CanonicalSecret rootOpening.expose.toList
  certified : ∀ epoch, member.epoch = some epoch →
    ∃ seed signature, Certified member epoch seed signature

-- The two halves together are what is loaded to act.
theorem Durable.loads (hdurable : Durable member credentialKey rootOpening)
    (hcertified : Certified member epoch seed signature) :
    member.stored (loadActingMaterial member.agora epoch 64 256) =
      .ok ⟨credentialKey, rootOpening, .new seed.expose, (member.keys.root member.agora).toList,
        ⟨seed.publicKey.toList, signature.toList⟩⟩ := by
  have hload : loadActingMaterial member.agora epoch 64 256 ⟨member.store, []⟩ =
      .ok ⟨credentialKey, rootOpening, .new seed.expose, (member.keys.root member.agora).toList,
        ⟨seed.publicKey.toList, signature.toList⟩⟩ ⟨member.store, []⟩ := by
    unfold loadActingMaterial
    rw [bind_eq_ok]
    refine ⟨_, _, loadSecret32_working hdurable.keyHeld, ?_⟩
    rw [bind_eq_ok]
    refine ⟨_, _, loadSecret32_working hdurable.openingHeld, ?_⟩
    rw [bind_eq_ok]
    refine ⟨_, _, loadSecret32_working hcertified.key, ?_⟩
    rw [bind_eq_ok]
    refine ⟨_, _, load_working hdurable.rootHeld (by simp), ?_⟩
    rw [expect_bind_eq_ok]
    refine ⟨_, rfl, ?_⟩
    rw [bind_eq_ok]
    refine ⟨_, _, loadEpochRecord_working hcertified.record (by decide), ?_⟩
    rw [expect_bind_eq_ok]
    exact ⟨_, rfl, pure_eq_ok.2 ⟨rfl, rfl⟩⟩
  unfold stored
  rw [hload]

-- That material is what the proofs ask for.
theorem equipped_of_ready (hdurable : Durable member credentialKey rootOpening)
    (hcanonical : CanonicalSecret credentialKey.expose.toList)
    (hopening : CanonicalSecret rootOpening.expose.toList)
    (hcertified : Certified member epoch seed signature) :
    Equipped member.keys.root member.agora epoch
      ⟨credentialKey, rootOpening, .new seed.expose, (member.keys.root member.agora).toList,
        ⟨seed.publicKey.toList, signature.toList⟩⟩ where
  credentialKey := lt_of_canonicalSecret hcanonical
  rootOpening := lt_of_canonicalSecret hopening
  rootPublicKey := rfl
  point := isSome_of_commit hdurable.opens
  epochKey := by
    have hpublic : Signature.publicKey seed.expose = some seed.publicKey := (Option.some_get _).symm
    exact congrArg (Option.map Bytes.toList) hpublic
  certified := hcertified.signed

-- A roll leaves the durable half as it is, and certifies its epoch.
theorem Durable.roll (hdurable : Durable member credentialKey rootOpening)
    (hroll : member.roll epoch = .ok after) : Durable after credentialKey rootOpening := by
  have hkept : ∀ slot : Slot, slot.actsIn = none → slot ≠ .EpochCursor →
      after.store (member.agora, slot) = member.store (member.agora, slot) :=
    fun slot hacts hcursor => roll_kept hroll hacts hcursor
  rw [(roll_ok hroll).1]
  constructor
  · rw [← hdurable.keyHeld]
    exact hkept _ rfl (by simp)
  · rw [← hdurable.openingHeld]
    exact hkept _ rfl (by simp)
  · rw [← hdurable.rootHeld]
    exact hkept _ rfl (by simp)
  · exact hdurable.opens

theorem certified_roll (hcorrect : Signature.Correct) (hroll : member.roll epoch = .ok after) :
    ∃ seed signature, Certified after epoch seed signature := by
  obtain ⟨hafter, storage, hrun, hheld⟩ := roll_ok hroll
  obtain ⟨_, discarded, record, _, _, hsign, _, hwritten⟩ := rollEpoch_ok hrun
  obtain ⟨room, written, hsigned, hrecord⟩ := signEpochRecord_ok hsign
  obtain ⟨value, _, hvalue⟩ := SoftwareKeyStore.signed_eq_ok.1 hsigned
  have hhonours := (member.keys.keyStore_honours hcorrect).epochCert _ _ _ hsigned
  refine ⟨SigningSeed.mint (member.epochSeed epoch), (member.keys.rootKey member.agora).sign value,
    ?_⟩
  rw [hafter]
  constructor
  · rw [← hheld, hwritten]
    simp
  · rw [← hheld, hwritten]
    simp [hrecord, hvalue]
  · rw [hvalue] at hhonours
    exact hhonours

-- A tag key goes to a slot of its own.
theorem Durable.keepTagKey (hdurable : Durable member credentialKey rootOpening) (epoch : Epoch)
    (key : TagKey) : Durable { member with
      store := Function.update member.store (member.agora, .TagKey epoch)
        (some key.expose.toList) } credentialKey rootOpening where
  keyHeld := by
    rw [← hdurable.keyHeld]
    exact Function.update_of_ne (by simp) _ _
  openingHeld := by
    rw [← hdurable.openingHeld]
    exact Function.update_of_ne (by simp) _ _
  rootHeld := by
    rw [← hdurable.rootHeld]
    exact Function.update_of_ne (by simp) _ _
  opens := hdurable.opens

theorem Durable.receive (hdurable : Durable member credentialKey rootOpening)
    {envelope : Envelope} (hreceive : member.receive envelope = .ok after) :
    Durable after credentialKey rootOpening ∧ after.leaf = member.leaf ∧
      after.agora = member.agora := by
  obtain ⟨own, path, view, classRoot, equipped, _, hequipped, hroll⟩ := receive_eq_ok.1 hreceive
  rw [operate_storeTagKey, Except.ok.injEq] at hequipped
  have happlied : Durable (member.apply envelope.epoch own.position path view classRoot)
      credentialKey rootOpening :=
    ⟨hdurable.keyHeld, hdurable.openingHeld, hdurable.rootHeld, hdurable.opens⟩
  have hkept := happlied.keepTagKey envelope.epoch view.tagKey
  rw [hequipped] at hkept
  have hsame := sameHost_receive hreceive
  exact ⟨hkept.roll hroll, hsame.leaf, hsame.agora⟩

-- So whatever a host takes leaves it ready for the epoch it brought.
theorem Ready.receive (hready : Ready member) (hcorrect : Signature.Correct) {envelope : Envelope}
    (hreceive : member.receive envelope = .ok after) : Ready after := by
  obtain ⟨credentialKey, rootOpening, hdurable, hcanonical, hopening⟩ := hready.durable
  refine ⟨⟨credentialKey, rootOpening, (hdurable.receive hreceive).1, hcanonical, hopening⟩, ?_⟩
  obtain ⟨own, path, view, classRoot, equipped, _, hequipped, hroll⟩ := receive_eq_ok.1 hreceive
  rw [operate_storeTagKey, Except.ok.injEq] at hequipped
  intro epoch hepoch
  have hlast : epoch = envelope.epoch := by
    rw [(roll_ok hroll).1, ← hequipped] at hepoch
    exact (Option.some.inj hepoch).symm
  rw [hlast]
  exact certified_roll hcorrect hroll

-- A new credential is opened by what its store holds.
theorem Joins.ready {operator : AgoraState depth} (hjoins : Joins operator member) :
    Ready member := by
  obtain ⟨keys, entropy, epochSeed, policyClass, epoch, position, enrolled, henroll, rfl⟩ := hjoins
  obtain ⟨new, made, storage, hcreate, hroll, hagora, hkeys, hstore, hleaf, huntouched⟩ :=
    enroll_ok henroll
  obtain ⟨hcredential, hopening, hpublic, hcommit⟩ := create_software_ok hcreate
  have hmade : Durable new (.new (Field.mintSecret entropy.credentialKey))
      (.new (Field.mintSecret entropy.rootOpening)) := by
    constructor
    · rw [hstore, hagora]
      exact hcredential
    · rw [hstore, hagora]
      exact hopening
    · rw [hstore, hagora, hkeys]
      exact hpublic
    · rw [hagora, hkeys, hleaf]
      exact hcommit
  have hdurable := hmade.roll hroll
  have hfresh : enrolled.epoch = none := by
    rw [(roll_ok hroll).1]
    exact huntouched.epoch
  refine ⟨⟨.new (Field.mintSecret entropy.credentialKey),
    .new (Field.mintSecret entropy.rootOpening), ?_, canonicalSecret_mint _,
    canonicalSecret_mint _⟩, ?_⟩
  · exact ⟨hdurable.keyHeld, hdurable.openingHeld, hdurable.rootHeld, hdurable.opens⟩
  · intro last hlast
    cases hfresh.symm.trans hlast

-- A key's absence from a set, as a witness can show it: there is room for every gap, and the
-- truncated key is not in the set and neither end of the order.
structure Absent (set : ExclusionSet depth) (key : Bytes 32) : Prop where
  room : set.keys.length + 1 ≤ 2 ^ depth
  absent : truncateKey key ∉ set.keys
  positive : (truncateKey key).toNatLe ≠ 0
  below : (truncateKey key).toNatLe ≠ 2 ^ KEY_BITS - 1

omit [Primitives] in
theorem Absent.shows {set : ExclusionSet depth} {key : Bytes 32} (habsent : Absent set key)
    (hdepth : depth < 64) : ∃ witness, set.absenceWitness key = some witness ∧
      verifiesAbsent key witness set.root = true := by
  obtain ⟨witness, hwitness, hverifies⟩ :=
    ExclusionSet.verifiesAbsent_absenceWitness hdepth habsent.room key
  exact ⟨witness, hwitness, hverifies.2 ⟨habsent.absent, habsent.positive, habsent.below⟩⟩

-- The spend key read from the store is the one of the key that opens the leaf.
theorem Durable.spendKey_eq (hdurable : Durable member credentialKey rootOpening) :
    member.spendKey =
      .ok (Nullifier.migration credentialKey member.leaf member.agora).asBytes := by
  have hload : member.stored (SecureStorage.load member.agora .CredentialKey 32) =
      .ok (some credentialKey.expose.toList) := by
    unfold stored
    rw [load_working hdurable.keyHeld (Nat.le_of_eq credentialKey.expose.length_toList)]
  simp [spendKey, hload, Stop.must, Stop.expect, Except.mapError, bind, Except.bind, pure,
    Except.pure]

-- It is the same key whatever the host takes.
theorem Ready.spendKey_receive (hready : Ready member) {envelope : Envelope}
    (hreceive : member.receive envelope = .ok after) : after.spendKey = member.spendKey := by
  obtain ⟨_, _, hdurable, _, _⟩ := hready.durable
  obtain ⟨hkept, hleaf, hagora⟩ := hdurable.receive hreceive
  rw [hkept.spendKey_eq, hdurable.spendKey_eq, hleaf, hagora]

-- What an operator holds nothing against: the leaf unrevoked, the credential unspent.
structure Standing (operator : AgoraState depth) (member : Member depth) : Prop where
  unrevoked : Absent operator.revocations (revocationKey member.leaf)
  unspent : ∀ key, member.spendKey = .ok key → Absent operator.spends key

omit [Primitives] in
-- The roots recorded for a served epoch are of the sets and the tree as served.
theorem roots_eq_of_rootsIn {served : AgoraState depth} {roots : EpochRoots}
    (hsound : served.Sound) {policyClass : PolicyClass}
    (hroots : served.rootsIn served.epoch policyClass = .ok roots) :
    roots.revocation = served.revocations.root ∧ roots.spend = served.spends.root := by
  obtain ⟨snapshot, root, hsnapshot, _, rfl⟩ := AgoraState.rootsIn_eq_ok.1 hroots
  rw [hsound.rooted, Option.some_inj] at hsnapshot
  rw [← hsnapshot]
  exact ⟨rfl, rfl⟩

-- A ready member with the view of an epoch it stands in has a witness for every action in it.
theorem Follows.stands {served : AgoraState depth} (hfollows : Follows member served)
    (hready : Ready member) (hsound : served.Sound) (hdepth : depth < 64)
    (hstanding : Standing served member) :
    ∃ witness roots, member.acting served.epoch = .ok (witness, roots) ∧
      served.rootsIn served.epoch member.policyClass = .ok roots ∧
      Stands witness member.agora served.epoch roots := by
  obtain ⟨credentialKey, rootOpening, hdurable, hcanonical, hopening⟩ := hready.durable
  obtain ⟨seed, signature, hcertified⟩ := hready.certified served.epoch hfollows.epoch
  obtain ⟨entry, path, roots, _, _, hpath, hroots, hheld, hverifies⟩ := hfollows.placed
  obtain ⟨hrevocation, hspend⟩ := roots_eq_of_rootsIn hsound hroots
  have hspendKey := hdurable.spendKey_eq
  obtain ⟨revocationAbsence, hrevoked, hunrevoked⟩ := hstanding.unrevoked.shows hdepth
  obtain ⟨spendAbsence, hspent, hunspent⟩ := (hstanding.unspent _ hspendKey).shows hdepth
  rw [← hrevocation] at hunrevoked
  rw [← hspend] at hunspent
  have hequipped := equipped_of_ready hdurable hcanonical hopening hcertified
  refine ⟨_, roots, ?_, hroots,
    hequipped.stands hdurable.opens hverifies hunrevoked hunspent⟩
  simp only [acting, hheld, hpath, hfollows.revocations, hfollows.spends, hrevoked, hspendKey,
    hspent, hdurable.loads hcertified, Stop.expect, Option.elim, Stop.must, Except.mapError, bind,
    Except.bind, pure, Except.pure]

-- A system that proves for whoever stands.
def ProvesStanding (system : ProofSystem depth) : Prop :=
  ∀ (witness : ChainWitness depth) (agora : AgoraId) (epoch : Epoch) (roots : EpochRoots),
    Stands witness agora epoch roots → Acts system witness agora epoch roots

theorem provesStanding_stub (depth : Nat) : ProvesStanding (StubProver depth) :=
  fun _ _ _ _ hstands => hstands.acts_stub

-- What the operator answers a member in the current epoch: everything it proves is accepted, but
-- for the one vouch a session and the one approval a subject it has already counted.
structure Accepted (system : ProofSystem depth) (operator : AgoraState depth)
    (member : Member depth) : Prop where
  vouch : ∀ session opened entry, operator.sessions[session]? = some opened →
    operator.classes[opened.target]? = some entry →
      entry.policy.voucherClass = member.policyClass →
        ∃ proof nullifier, member.vouch system operator.epoch session = .ok (proof, nullifier) ∧
          ((∃ reply after, AgoraState.perform system (.vouchAttest session proof nullifier)
            operator = .ok reply after) ↔ nullifier ∉ opened.nullifiers)
  approve : ∀ subject proposal, operator.proposals[subject]? = some proposal →
    proposal.approvingClass = member.policyClass →
      ∃ proof nullifier, member.approve system operator subject = .ok (proof, nullifier) ∧
        ((∃ reply after, AgoraState.perform system (.approve subject proof nullifier)
          operator = .ok reply after) ↔ nullifier ∉ proposal.approvals)
  access : ∀ challenge : Challenge, challenge.asBytes ∈ operator.challenges →
    ∃ witness roots proof, member.acting operator.epoch = .ok (witness, roots) ∧
      proveVerificationAccess system witness member.agora operator.epoch roots
        challenge.asBytes.toList = .ok proof ∧
      ∃ reply after, AgoraState.perform system
        (.redeemAccess member.policyClass proof challenge) operator = .ok reply after
  attestation : ∀ (access : MemberAccess) (message : MessageHash),
    access.epoch = operator.epoch →
      ∃ witness roots proof nullifier, member.acting operator.epoch = .ok (witness, roots) ∧
        proveAuthorship system witness member.agora operator.epoch roots message =
          .ok (proof, nullifier) ∧
        AgoraState.verifyAttestation system access member.policyClass operator.epoch proof
          message nullifier operator = .ok true operator

section Accepting

variable {system : ProofSystem depth} {operator : AgoraState depth} {witness : ChainWitness depth}
  {roots : EpochRoots}

-- A vouch for an open session of the member's class counts once.
theorem vouch_accepted (hagora : operator.agora = member.agora)
    (hlive : operator.dissolved = false)
    (hacting : member.acting operator.epoch = .ok (witness, roots))
    (hroots : operator.rootsIn operator.epoch member.policyClass = .ok roots)
    (hacts : Acts system witness member.agora operator.epoch roots) {session : SessionId}
    {opened : VouchSession} {entry : ClassState depth}
    (hopened : operator.sessions[session]? = some opened)
    (hentry : operator.classes[opened.target]? = some entry)
    (hclass : entry.policy.voucherClass = member.policyClass) :
    ∃ proof nullifier, member.vouch system operator.epoch session = .ok (proof, nullifier) ∧
      ((∃ reply after, AgoraState.perform system (.vouchAttest session proof nullifier)
        operator = .ok reply after) ↔ nullifier ∉ opened.nullifiers) := by
  obtain ⟨proof, nullifier, hproved, haccepted⟩ := hacts.vouch session.asBytes.toList
  refine ⟨proof, nullifier, ?_, ?_⟩
  · simp only [vouch, hacting, bind, Except.bind, hproved]
    rfl
  · have hcall : AgoraState.Proves (.vouchAttest session proof nullifier : Call system) := trivial
    rw [AgoraState.perform_eq_ok_iff hcall]
    simp only [AgoraState.Meets]
    constructor
    · rintro ⟨_, found, _, _, hfound, _, _, _, hfresh⟩
      obtain rfl := Option.some_inj.1 (hopened.symm.trans hfound)
      exact hfresh
    · intro hfresh
      refine ⟨hlive, opened, entry, roots, hopened, hentry, ?_, ?_, hfresh⟩
      · rw [hclass]
        exact hroots
      · rw [hagora]
        exact haccepted

-- So does an approval of what is open under its own subject.
theorem approve_accepted (hagora : operator.agora = member.agora)
    (hlive : operator.dissolved = false)
    (hacting : member.acting operator.epoch = .ok (witness, roots))
    (hroots : operator.rootsIn operator.epoch member.policyClass = .ok roots)
    (hacts : Acts system witness member.agora operator.epoch roots) {subject : SubjectId}
    {proposal : Proposal} (hopen : operator.proposals[subject]? = some proposal)
    (hsubject : subjectId operator.agora proposal.opened proposal.approvingClass proposal.decision
      proposal.nonce = subject) (hclass : proposal.approvingClass = member.policyClass) :
    ∃ proof nullifier, member.approve system operator subject = .ok (proof, nullifier) ∧
      ((∃ reply after, AgoraState.perform system (.approve subject proof nullifier)
        operator = .ok reply after) ↔ nullifier ∉ proposal.approvals) := by
  obtain ⟨proof, nullifier, hproved, haccepted⟩ := hacts.policyApproval subject.asBytes.toList
  refine ⟨proof, nullifier, ?_, ?_⟩
  · have hview : operator.proposal subject = some ⟨proposal.decision, proposal.approvingClass,
        proposal.opened, proposal.nonce⟩ := by
      simp [AgoraState.proposal, hopen]
    rw [hagora] at hsubject
    simp only [approve, hview, Stop.expect, Option.elim, hsubject, ne_eq, not_true_eq_false,
      if_false, hacting, bind, Except.bind, hproved]
    rfl
  · have hcall : AgoraState.Proves (.approve subject proof nullifier : Call system) := trivial
    rw [AgoraState.perform_eq_ok_iff hcall]
    simp only [AgoraState.Meets]
    constructor
    · rintro ⟨_, found, _, hfound, _, _, hfresh⟩
      obtain rfl := Option.some_inj.1 (hopen.symm.trans hfound)
      exact hfresh
    · intro hfresh
      refine ⟨hlive, proposal, roots, hopen, ?_, ?_, hfresh⟩
      · rw [hclass]
        exact hroots
      · rw [hagora]
        exact haccepted

-- Proofs on the operator's own roots for the member's class are accepted.
theorem accepted_of_stands (hproves : ProvesStanding system)
    (hagora : operator.agora = member.agora) (hlive : operator.dissolved = false)
    (hacting : member.acting operator.epoch = .ok (witness, roots))
    (hroots : operator.rootsIn operator.epoch member.policyClass = .ok roots)
    (hstands : Stands witness member.agora operator.epoch roots)
    (hsubjects : ∀ subject proposal, operator.proposals[subject]? = some proposal →
      subjectId operator.agora proposal.opened proposal.approvingClass proposal.decision
        proposal.nonce = subject) : Accepted system operator member := by
  have hacts := hproves _ _ _ _ hstands
  constructor
  · intro session opened entry hopened hentry hclass
    exact vouch_accepted hagora hlive hacting hroots hacts hopened hentry hclass
  · intro subject proposal hopen hclass
    exact approve_accepted hagora hlive hacting hroots hacts hopen
      (hsubjects subject proposal hopen) hclass
  · intro challenge hissued
    obtain ⟨proof, hproved, haccepted⟩ := hacts.verificationAccess challenge.asBytes.toList
    refine ⟨witness, roots, proof, hacting, hproved, ?_⟩
    have hcall : AgoraState.Proves
        (.redeemAccess member.policyClass proof challenge : Call system) := trivial
    rw [AgoraState.perform_eq_ok_iff hcall]
    refine ⟨hlive, hissued, roots, hroots, ?_⟩
    rw [hagora]
    exact haccepted
  · intro access message haccess
    obtain ⟨proof, nullifier, hproved, haccepted⟩ := hacts.authorship message
    refine ⟨witness, roots, proof, nullifier, hacting, hproved, ?_⟩
    refine AgoraState.verifyAttestation_eq_ok.2 ⟨hlive, haccess, ⟨roots, hroots, ?_⟩, rfl⟩
    rw [hagora, haccepted]

end Accepting

section Runs

variable {ρ : Type} [DecidableEq ρ] {system : ProofSystem depth} {net : Net depth ρ}
  {moves : List (NetMove system ρ)}

theorem ready_run (hcorrect : Signature.Correct)
    (hjoins : ∀ client member, net.clients client = some member → Joins net.server member) :
    ∀ client member, (net.run moves).clients client = some member → Ready member := by
  refine kept_run (motive := fun _ => Ready) ?_ ?_
  · intro client member hmember
    exact (hjoins client member hmember).ready
  · intro client member envelope after hready hreceive
    exact hready.receive hcorrect hreceive

-- What is open in a run is open under its own subject.
theorem subjects_run {founding : Founding} (hfresh : AgoraState.Fresh founding net.server)
    (subject : SubjectId) (proposal : Proposal)
    (hopen : (net.run moves).server.proposals[subject]? = some proposal) :
    subjectId (net.run moves).server.agora proposal.opened proposal.approvingClass
      proposal.decision proposal.nonce = subject := by
  have hgoverned := (net.execution moves).governed hfresh
  obtain ⟨before, raising, between, _, hraised⟩ := hgoverned.proposals subject proposal hopen
  rw [hraised.opened]
  exact (hgoverned.counted hopen).1.symm

-- In every run, whatever the network delivered: a member that holds the current epoch's view, and
-- that the operator holds nothing against, is accepted in everything it proves.
theorem members_in_standing_act {founding : Founding} {tagSecret statementEntropy : Bytes 32}
    {logSeed : Option (Bytes 32)} (hdepth : depth < 64) (hopens : Inbox.OpenAfterSeal)
    (hcorrect : Signature.Correct) (hproves : ProvesStanding system)
    (hcreate : AgoraState.create founding tagSecret statementEntropy logSeed = .ok net.server)
    (hjoins : ∀ client member, net.clients client = some member → Joins net.server member)
    (hsane : net.Sane moves) (client : ρ) (member : Member depth)
    (hmember : (net.run moves).clients client = some member)
    (hlive : (net.run moves).server.dissolved = false)
    (hcurrent : member.epoch = some (net.run moves).server.epoch)
    (hstanding : Standing (net.run moves).server member) :
    Accepted system (net.run moves).server member := by
  have hfresh := AgoraState.fresh_of_create hcreate
  have hexecution := net.execution moves
  have hsynced := synced_run hdepth hopens hcreate hjoins hsane client member hmember
  rcases hsynced.current with huntouched | ⟨event, hevent, _, hfollows⟩
  · cases huntouched.epoch.symm.trans hcurrent
  have hepoch : event.after.epoch = (net.run moves).server.epoch :=
    Option.some.inj (hfollows.epoch.symm.trans hcurrent)
  obtain ⟨earlier, later, hhistory⟩ := List.append_of_mem hevent
  have hsplit := hexecution
  rw [hhistory] at hsplit
  obtain ⟨_, _, _, hafter, hlater⟩ := hsplit.at_event hfresh.sound
  -- The view is of this epoch, and within an epoch the sets stay as they are.
  have hsame := hlater.sameBoundary hafter hepoch.symm hlive
  have hserved : Standing event.after member := by
    constructor
    · rw [← hsame.revocations]
      exact hstanding.unrevoked
    · rw [← hsame.spends]
      exact hstanding.unspent
  obtain ⟨witness, roots, hacting, hroots, hstands⟩ := hfollows.stands
    (ready_run hcorrect hjoins client member hmember) hafter hdepth hserved
  have hrecorded : event.after.epoch.get ∈ event.after.history := by
    rw [Std.ExtTreeMap.mem_iff_isSome_getElem?, hafter.rooted]
    rfl
  have hkept := hlater.rootsIn_kept hafter hrecorded
  rw [hepoch] at hacting hroots hstands hkept
  refine accepted_of_stands hproves ?_ hlive hacting ?_ hstands (subjects_run hfresh)
  · rw [hsynced.joined]
    exact hexecution.agora hfresh.sound
  · rw [hkept]
    exact hroots

end Runs

end Member

end Nymora.Protocol

namespace Nymora.Protocol.Member.Sample

open Nymora.Core
open Nymora.Crypto
open Nymora.Accumulator
open Nymora.Circuits
open Operator
open Operator.AgoraState (eq_ok_get)
open scoped Nymora.Crypto.Reference

-- The founder's leaf and spend key lie inside the order of the exclusion sets, which are empty.
def inOrder (key : Bytes 32) : Bool :=
  (truncateKey key).toNatLe ≠ 0 ∧ (truncateKey key).toNatLe ≠ 2 ^ KEY_BITS - 1

theorem nothing_excluded : operator.revocations.keys = [] ∧ operator.spends.keys = [] ∧
    inOrder (revocationKey founder.leaf) ∧ founder.spendKey.toOption.any inOrder := by
  decide +kernel

theorem absent_of_inOrder {set : ExclusionSet 2} {key : Bytes 32} (hempty : set.keys = [])
    (horder : inOrder key = true) : Absent set key := by
  have hbounds := of_decide_eq_true horder
  refine ⟨?_, ?_, hbounds.1, hbounds.2⟩
  · rw [hempty]
    decide
  · rw [hempty]
    exact List.not_mem_nil

theorem equipped_standing : Standing operator equipped := by
  obtain ⟨hrevocations, hspends, hleaf, hspend⟩ := nothing_excluded
  have hready := (joins () founder net_founder).ready
  obtain ⟨after, hreceive, _, _, hsame⟩ := founder_receives
  rw [Except.ok.inj (hreceive.symm.trans founder_equipped)] at hsame
  constructor
  · rw [hsame]
    exact absent_of_inOrder hrevocations hleaf
  · intro key hkey
    rw [hready.spendKey_receive founder_equipped] at hkey
    rw [hkey] at hspend
    exact absent_of_inOrder hspends hspend

theorem members_in_standing_act_founder : Accepted (StubProver 2) operator equipped := by
  have hacts := members_in_standing_act (by decide) Reference.openAfterSeal
    Reference.signature_correct (provesStanding_stub 2) (eq_ok_get founds) joins net_sane ()
    equipped run_moves
  rw [server_moves] at hacts
  exact hacts operator_live equipped_current equipped_standing

end Nymora.Protocol.Member.Sample
