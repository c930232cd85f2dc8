import Nymora.Circuits.Stub.Soundness
import Nymora.Plonk.System.Theorems

namespace Nymora.Plonk

open Nymora.Core
open Nymora.Crypto

theorem eq_decoded_iff {bytes : Bytes 32} {decoded value : F} (hdecoded : decode bytes = some decoded) :
    value = decoded ↔ bytes = Field.toBytes value := by
  rw [decode, Field.decode_eq_some] at hdecoded
  rw [← Field.fromWitnessBytes_of_lt hdecoded.1, ← hdecoded.2, Field.toBytes_inj]
  exact eq_comm

theorem fromWitnessBytes_of_decode {bytes : Bytes 32} {value : F} (hdecoded : decode bytes = some value) :
    Field.fromWitnessBytes bytes = value := by
  rw [decode, Field.decode_eq_some] at hdecoded
  exact hdecoded.2.symm

theorem val_of_decode {bytes : Bytes 32} {value : F} (hdecoded : decode bytes = some value) :
    value.val = bytes.toNatLe := by
  rw [decode, Field.decode_eq_some] at hdecoded
  rw [hdecoded.2, Field.fromWitnessBytes_val, Nat.mod_eq_of_lt hdecoded.1]

-- A gap that strictly contains a key, its leaf under the root. The range of its bounds is no
-- part of this.
structure GapAround {depth : Nat} (key : F) (witness : AbsenceWitness depth) (root : F) : Prop where
  low : witness.low.val < key.val % 2 ^ 253
  high : key.val % 2 ^ 253 < witness.high.val
  included : witness.path.root (gapLeaf witness.low witness.high) = root

theorem verifiesAbsent_iff {depth : Nat} {key root : F} {witness : AbsenceWitness depth} :
    verifiesAbsent key witness root = true ↔ GapAround key witness root := by
  simp only [verifiesAbsent, Bool.and_eq_true, decide_eq_true_eq, leCmp_eq_lt, truncateKey_val]
  constructor
  · intro hclauses
    exact ⟨hclauses.1.1, hclauses.1.2, hclauses.2⟩
  · intro hgap
    exact ⟨⟨hgap.low, hgap.high⟩, hgap.included⟩

section

variable {depth : Nat}

theorem path_eq_some {witness : Accumulator.Witness depth} {native : Path depth}
    (hpath : path witness = some native) :
    native.siblings = witness.siblings.map Accumulator.Node.value ∧
      native.bits = (List.range depth).map fun level => witness.index.testBit (level % 64) := by
  unfold path at hpath
  split at hpath
  · cases hpath
  next siblings hsiblings =>
    obtain rfl := Option.some_inj.1 hpath
    exact ⟨(decodeSiblings_eq_some.1 hsiblings).2, rfl⟩

-- The two folds walk one path.
theorem root_of_path {witness : Accumulator.Witness depth} {native : Path depth}
    (hpath : path witness = some native) (leaf : F) :
    native.root leaf = Merkle.climb Accumulator.hashPair leaf witness.turns := by
  obtain ⟨hsiblings, hbits⟩ := path_eq_some hpath
  have hturns : native.siblings.zip native.bits = witness.turns.map Prod.swap := by
    rw [hsiblings, hbits, Accumulator.Witness.turns]
    apply List.ext_getElem?
    intro level
    by_cases hlevel : level < depth
    · have hsibling : level < witness.siblings.length := by
        rw [witness.length_siblings]
        exact hlevel
      simp [hlevel, hsibling]
    · have hsibling : witness.siblings.length ≤ level := by
        rw [witness.length_siblings]
        omega
      simp [hlevel, hsibling]
  rw [Path.root, hturns, List.foldl_map, Merkle.climb]
  congr 1

theorem verifies_iff {witness : Accumulator.Witness depth} {native : Path depth} {root : Root}
    {decoded leaf : F} (hpath : path witness = some native)
    (hroot : decode root.asBytes = some decoded) :
    Accumulator.verifies (.fromBytes (Field.toBytes leaf)) witness root = true ↔
      native.root leaf = decoded := by
  rw [eq_decoded_iff hroot, root_of_path hpath, Accumulator.verifies, Accumulator.rootFrom,
    Accumulator.fold, Field.fromWitnessBytes_toBytes, decide_eq_true_eq]
  exact eq_comm

theorem absence_eq_some {witness : Accumulator.AbsenceWitness depth} {native : AbsenceWitness depth}
    (habsence : absence witness = some native) :
    decode witness.low = some native.low ∧ decode witness.high = some native.high ∧
      path witness.witness = some native.path := by
  simp only [absence, Option.bind_eq_bind, Option.bind_eq_some_iff, Option.pure_def,
    Option.some_inj] at habsence
  obtain ⟨low, hlow, high, hhigh, native, hpath, rfl⟩ := habsence
  exact ⟨hlow, hhigh, hpath⟩

-- The byte-level check is the native one and the range of the upper bound: a lower bound below
-- a truncated key is in range already.
theorem accumulator_verifiesAbsent_iff {witness : Accumulator.AbsenceWitness depth}
    {native : AbsenceWitness depth} {root : Root} {decoded key : F}
    (habsence : absence witness = some native) (hroot : decode root.asBytes = some decoded) :
    Accumulator.verifiesAbsent (Field.toBytes key) witness root = true ↔
      GapAround key native decoded ∧ native.high.val < 2 ^ 253 := by
  obtain ⟨hlow, hhigh, hpath⟩ := absence_eq_some habsence
  have hlowVal := val_of_decode hlow
  have hhighVal := val_of_decode hhigh
  have hgap : Accumulator.gapLeaf witness.low witness.high = gapLeaf native.low native.high := by
    rw [Accumulator.gapLeaf, gapLeaf, fromWitnessBytes_of_decode hlow,
      fromWitnessBytes_of_decode hhigh]
  have htruncated : (Accumulator.truncateKey (Field.toBytes key)).toNatLe = key.val % 2 ^ 253 := by
    rw [Accumulator.toNatLe_truncateKey, Field.toNatLe_toBytes]
    rfl
  have hincluded : (Accumulator.fold (Accumulator.gapLeaf witness.low witness.high)
      witness.witness).asBytes = root.asBytes ↔
        native.path.root (gapLeaf native.low native.high) = decoded := by
    rw [eq_decoded_iff hroot, root_of_path hpath, hgap, Accumulator.fold]
    exact eq_comm
  have hbound : key.val % 2 ^ 253 < 2 ^ 253 := Nat.mod_lt _ (by decide)
  have hdomain : ∀ bound : Bytes 32,
      Accumulator.truncateKey bound = bound ↔ bound.toNatLe < 2 ^ 253 :=
    fun bound => Accumulator.truncateKey_eq_self
  unfold Accumulator.verifiesAbsent
  split
  next hoff =>
    simp only [ne_eq, hdomain] at hoff
    constructor
    · intro hfalse
      cases hfalse
    · rintro ⟨hgap, hrange⟩
      have hbelow := hgap.low
      omega
  next hin =>
    simp only [ne_eq, hdomain, not_or, Decidable.not_not] at hin
    simp only [Bool.and_eq_true, decide_eq_true_eq, Accumulator.ctLess_iff, htruncated, hincluded,
      ← hlowVal, ← hhighVal]
    constructor
    · intro hclauses
      exact ⟨⟨hclauses.1.1, hclauses.1.2, hclauses.2⟩, by omega⟩
    · intro hclauses
      exact ⟨⟨hclauses.1.low, hclauses.1.high⟩, hclauses.1.included⟩

end

theorem revocationKey_eq (leaf : F) :
    revocationKey (.fromBytes (Field.toBytes leaf)) = Field.toBytes (revocationEntry leaf) := by
  rw [revocationKey, Field.fromWitnessBytes_toBytes, revocationEntry]

theorem migration_eq {credentialKey : CredentialKey} {key : F} (leaf : F) (agora : AgoraId)
    (hkey : decode credentialKey.expose = some key) :
    (Nullifier.migration credentialKey (.fromBytes (Field.toBytes leaf)) agora).asBytes =
      Field.toBytes (spendOf key leaf (Field.fromId agora.asBytes)) := by
  rw [Nullifier.migration, Field.fromWitnessBytes_toBytes, fromWitnessBytes_of_decode hkey, spendOf]

-- The tag an action carries is the tag the evaluator finds.
theorem find_tag {tag : Nat} (htag : tag < 5) :
    ((List.range 5).find? fun v => Field.ofNat tag = Field.ofNat v) = some tag := by
  have hfound : ∀ tag < 5,
      ((List.range 5).find? fun v => Field.ofNat tag = Field.ofNat v) = some tag := by
    decide +kernel
  exact hfound tag htag

-- One epoch key as a field element.
theorem scalarAsField_eq {bytes : Bytes 32} {scalar : JubjubScalar}
    (hscalar : Signature.scalarFromBytes bytes = some scalar) :
    Signature.scalarAsField scalar = Field.fromWitnessBytes bytes := by
  unfold Signature.scalarFromBytes at hscalar
  split at hscalar
  next hlt =>
    obtain rfl := Option.some_inj.1 hscalar
    apply Fin.ext
    rw [Field.fromWitnessBytes_val,
      Nat.mod_eq_of_lt (Nat.lt_trans hlt jubjubOrder_lt_fieldOrder)]
    rfl
  · cases hscalar

-- The output an action derives under a key and a context.
theorem output_iff {name : DigestName} {claimed : Digest name} {output : F} (inputs : List F)
    (houtput : decode claimed.asBytes = some output) :
    Poseidon.hash inputs = output ↔
      claimed = .fromBytes (Field.toBytes (Poseidon.hash inputs)) := by
  rw [eq_decoded_iff houtput, ← Digest.asBytes_inj]

theorem satisfiesAction_of_tag {tag : Nat} {inst : ChainInstance} (scalar : JubjubScalar) (key : F)
    (hderives : tag < FieldDomain.ActionTag.VERIFICATION)
    (htag : inst.actionTag = Field.ofNat tag) :
    satisfiesAction scalar key inst = decide (Poseidon.hash [Field.ofNat FieldDomain.ACTION,
      Field.ofNat tag, if tag = FieldDomain.ActionTag.AUTHORSHIP ∨
        tag = FieldDomain.ActionTag.LIVE_AUTH then Signature.scalarAsField scalar else key,
      inst.actionContext, inst.agora] = inst.actionOutput) := by
  have hinRange : tag < 5 := Nat.lt_succ_of_lt hderives
  have hne : tag ≠ FieldDomain.ActionTag.VERIFICATION := by omega
  unfold satisfiesAction
  rw [htag, find_tag hinRange]
  simp only [if_neg hne]

section

variable [Primitives] {depth : Nat}

theorem decodePoint_eq_some {bytes : List UInt8} {point : SubgroupPoint} :
    decodePoint bytes = some point ↔
      ∃ key, Bytes.ofList? 32 bytes = some key ∧ Primitives.fromBytes key = some point := by
  simp only [decodePoint, Option.bind_eq_bind, Option.bind_eq_some_iff]

theorem signature_verify_eq {publicKey signature : List UInt8} {pk : SubgroupPoint}
    {native : Signature} (hpoint : decodePoint publicKey = some pk)
    (hsignature : decodeSignature signature = some native) (message : F) :
    Signature.verify publicKey message signature = verify native pk message := by
  obtain ⟨key, hkey, hpk⟩ := decodePoint_eq_some.1 hpoint
  simp only [decodeSignature, Option.bind_eq_bind, Option.bind_eq_some_iff, Option.pure_def,
    Option.some_inj] at hsignature
  obtain ⟨bytes, hbytes, r, hr, sBytes, hsBytes, s, hs, rfl⟩ := hsignature
  obtain ⟨rBytes, hrBytes, hrPoint⟩ := decodePoint_eq_some.1 hr
  simp only [Signature.verify, Signature.decodePoint, Option.bind_eq_bind, hkey, hpk, hbytes,
    hrBytes, hsBytes, hrPoint, hs, Option.bind_some, Option.pure_def, Option.getD_some]
  rfl

theorem commit_eq (agora : AgoraId) {pkRoot : List UInt8} {credentialKey : CredentialKey}
    {opening : RootOpening} {point : SubgroupPoint} {key r : F} (hpoint : decodePoint pkRoot = some point)
    (hkey : decode credentialKey.expose = some key) (hopening : decode opening.expose = some r) :
    commit pkRoot credentialKey opening agora =
      some (.fromBytes (Field.toBytes (openedLeaf point key r (Field.fromId agora.asBytes)))) := by
  obtain ⟨bytes, hbytes, hfrom⟩ := decodePoint_eq_some.1 hpoint
  simp only [commit, Option.bind_eq_bind, hbytes, hfrom, Option.bind_some, Option.pure_def,
    fromWitnessBytes_of_decode hkey, fromWitnessBytes_of_decode hopening]
  rfl

theorem satisfiesAction_iff {epochKey : EpochSecretKey} {credentialKey : CredentialKey}
    {inputs : Circuits.ChainPublicInputs} {inst : ChainInstance} {scalar : JubjubScalar} {key : F}
    (hinst : chainInstance inputs = some inst)
    (hscalar : Signature.scalarFromBytes epochKey.expose = some scalar)
    (hkey : decode credentialKey.expose = some key) :
    satisfiesAction scalar key inst = true ↔
      Circuits.actionHolds epochKey credentialKey inputs.agora inputs.action = true := by
  obtain ⟨⟨tag, haction, htag⟩, _, _, _, hagora, _⟩ := chainInstance_eq_some.1 hinst
  have hepoch := scalarAsField_eq hscalar
  have hcredential := fromWitnessBytes_of_decode hkey
  cases hact : inputs.action with
  | Authorship messageHash nullifier =>
      simp only [hact, actionInstance, bridge_eq, Option.bind_eq_bind, Option.bind_eq_some_iff,
        Option.pure_def, Option.some_inj, Prod.mk.injEq] at haction
      obtain ⟨output, houtput, rfl, hcontext, rfl⟩ := haction
      rw [satisfiesAction_of_tag scalar key (by decide) htag, if_pos (Or.inl rfl), hagora, hepoch,
        ← hcontext, decide_eq_true_eq, output_iff _ houtput]
      exact decide_eq_true_iff.symm
  | Vouch sessionId nullifier =>
      simp only [hact, actionInstance, bridge_eq, Option.bind_eq_bind, Option.bind_eq_some_iff,
        Option.pure_def, Option.some_inj, Prod.mk.injEq] at haction
      obtain ⟨output, houtput, rfl, hcontext, rfl⟩ := haction
      rw [satisfiesAction_of_tag scalar key (by decide) htag, if_neg (by decide), hagora, ← hcredential,
        ← hcontext, decide_eq_true_eq, output_iff _ houtput]
      exact decide_eq_true_iff.symm
  | PolicyApproval proposalId nullifier =>
      simp only [hact, actionInstance, bridge_eq, Option.bind_eq_bind, Option.bind_eq_some_iff,
        Option.pure_def, Option.some_inj, Prod.mk.injEq] at haction
      obtain ⟨output, houtput, rfl, hcontext, rfl⟩ := haction
      rw [satisfiesAction_of_tag scalar key (by decide) htag, if_neg (by decide), hagora, ← hcredential,
        ← hcontext, decide_eq_true_eq, output_iff _ houtput]
      exact decide_eq_true_iff.symm
  | LiveAuth context pseudonym =>
      simp only [hact, actionInstance, bridge_eq, Option.bind_eq_bind, Option.bind_eq_some_iff,
        Option.pure_def, Option.some_inj, Prod.mk.injEq] at haction
      obtain ⟨output, houtput, rfl, hcontext, rfl⟩ := haction
      rw [satisfiesAction_of_tag scalar key (by decide) htag, if_pos (Or.inr rfl), hagora, hepoch,
        ← hcontext, decide_eq_true_eq, output_iff _ houtput]
      exact decide_eq_true_iff.symm
  | VerificationAccess challenge =>
      simp only [hact, actionInstance, Option.some_inj, Prod.mk.injEq] at haction
      obtain ⟨rfl, _, houtput⟩ := haction
      unfold satisfiesAction
      rw [htag, find_tag (by decide), ← houtput]
      simp [Circuits.actionHolds]

-- The leaf committed to is the public one.
theorem commit_eq_some_iff {pkRoot : List UInt8} {credentialKey : CredentialKey}
    {opening : RootOpening} {agora : AgoraId} {point : SubgroupPoint} {key r decoded : F}
    {leaf : Commitment} (hpoint : decodePoint pkRoot = some point)
    (hkey : decode credentialKey.expose = some key) (hopening : decode opening.expose = some r)
    (hleaf : decode leaf.asBytes = some decoded) :
    commit pkRoot credentialKey opening agora = some leaf ↔
      openedLeaf point key r (Field.fromId agora.asBytes) = decoded := by
  rw [commit_eq agora hpoint hkey hopening, Option.some_inj, eq_decoded_iff hleaf,
    ← Digest.asBytes_inj]
  exact eq_comm

theorem epochCertMessage_eq (agora : AgoraId) (epoch : Epoch) {publicKey : List UInt8}
    {point : SubgroupPoint} (hpoint : decodePoint publicKey = some point) :
    Signature.epochCertMessage agora epoch publicKey =
      some (Poseidon.hash [Field.ofNat FieldDomain.EPOCH_CERT, Field.fromId agora.asBytes,
        Field.ofNat epoch.get, (Primitives.coordinates point).1,
        (Primitives.coordinates point).2]) := by
  obtain ⟨bytes, hbytes, hfrom⟩ := decodePoint_eq_some.1 hpoint
  simp only [Signature.epochCertMessage, Signature.decodePoint, Option.bind_eq_bind, hbytes, hfrom,
    Option.bind_some, Option.pure_def]
  rfl

theorem migrationCertMessage_eq (agora : AgoraId) {publicKey : List UInt8} {point : SubgroupPoint}
    (hpoint : decodePoint publicKey = some point) :
    Signature.migrationCertMessage agora publicKey =
      some (Poseidon.hash [Field.ofNat FieldDomain.MIGRATION_CERT, Field.fromId agora.asBytes,
        (Primitives.coordinates point).1, (Primitives.coordinates point).2]) := by
  obtain ⟨bytes, hbytes, hfrom⟩ := decodePoint_eq_some.1 hpoint
  simp only [Signature.migrationCertMessage, Signature.decodePoint, Option.bind_eq_bind, hbytes,
    hfrom, Option.bind_some, Option.pure_def]

theorem publicKey_eq_some {sk pk : Bytes 32} :
    Signature.publicKey sk = some pk ↔
      ∃ scalar, Signature.scalarFromBytes sk = some scalar ∧
        Primitives.toBytes (publicKey scalar) = pk := by
  simp only [Signature.publicKey, Option.bind_eq_bind, Option.bind_eq_some_iff, Option.pure_def,
    Option.some_inj, publicKey]

-- The curve's encoding: one byte string for each subgroup point.
structure PointEncoding : Prop where
  fromBytes_toBytes : ∀ point : SubgroupPoint,
    Primitives.fromBytes (Primitives.toBytes point) = some point
  toBytes_of_fromBytes : ∀ (bytes : Bytes 32) (point : SubgroupPoint),
    Primitives.fromBytes bytes = some point → Primitives.toBytes point = bytes

theorem PointEncoding.toList_eq_iff (hpoints : PointEncoding) {bytes : List UInt8}
    {point decoded : SubgroupPoint} (hdecoded : decodePoint bytes = some decoded) :
    (Primitives.toBytes point).toList = bytes ↔ point = decoded := by
  obtain ⟨key, hkey, hfrom⟩ := decodePoint_eq_some.1 hdecoded
  rw [Bytes.ofList?_eq_some.1 hkey, Bytes.toList_inj, ← hpoints.toBytes_of_fromBytes _ _ hfrom]
  constructor
  · intro hsame
    have hround := hpoints.fromBytes_toBytes point
    rw [hsame, hpoints.fromBytes_toBytes] at hround
    exact (Option.some_inj.1 hround).symm
  · intro hsame
    rw [hsame]

-- Every clause of the chain statement on field-native values, but for the range of the upper
-- bounds.
structure ChainClauses (epochKey : JubjubScalar) (witness : ChainWitness depth)
    (inst : ChainInstance) : Prop where
  canonical : Signature.scalarFromBytes witness.epochKeyBytes = some epochKey
  correspondence : publicKey epochKey = witness.epochPublicKey
  certified : verify witness.epochCertificate witness.rootPublicKey
    (Poseidon.hash [Field.ofNat FieldDomain.EPOCH_CERT, inst.agora, inst.epoch,
      (Primitives.coordinates witness.epochPublicKey).1,
      (Primitives.coordinates witness.epochPublicKey).2]) = true
  included : witness.classPath.root (openedLeaf witness.rootPublicKey witness.credentialKey
    witness.rootOpening inst.agora) = inst.classRoot
  unrevoked : GapAround (revocationEntry (openedLeaf witness.rootPublicKey witness.credentialKey
    witness.rootOpening inst.agora)) witness.revocationAbsence inst.revocationRoot
  unspent : GapAround (spendOf witness.credentialKey (openedLeaf witness.rootPublicKey
    witness.credentialKey witness.rootOpening inst.agora) inst.agora) witness.spendAbsence
    inst.spendRoot
  action : satisfiesAction epochKey witness.credentialKey inst = true

theorem satisfiesChain_iff {witness : ChainWitness depth} {inst : ChainInstance} :
    satisfiesChain witness inst = true ↔ ∃ epochKey, ChainClauses epochKey witness inst := by
  simp only [satisfiesChain, Circuits.getD_false_eq_true, Option.bind_eq_bind,
    Option.bind_eq_some_iff, Option.guard_eq_some', exists_const, Option.pure_def, Option.some_inj,
    verifiesAbsent_iff]
  constructor
  · rintro ⟨epochKey, hcanonical, hpublic, hcertified, hincluded, hrevocation, hspend, haction⟩
    exact ⟨epochKey, hcanonical, hpublic, hcertified, hincluded, hrevocation, hspend, haction⟩
  · rintro ⟨epochKey, hclauses⟩
    exact ⟨epochKey, hclauses.canonical, hclauses.correspondence, hclauses.certified,
      hclauses.included, hclauses.unrevoked, hclauses.unspent, hclauses.action⟩

theorem chainWitness_eq_some {witness : Circuits.ChainWitness depth} {native : ChainWitness depth}
    (hwitness : chainWitness witness = some native) :
    native.epochKeyBytes = witness.epochKey.expose ∧
      decodePoint witness.epochPublicKey = some native.epochPublicKey ∧
      decodeSignature witness.epochCertSignature = some native.epochCertificate ∧
      decode witness.credentialKey.expose = some native.credentialKey ∧
      decode witness.rootOpening.expose = some native.rootOpening ∧
      decodePoint witness.rootPublicKey = some native.rootPublicKey ∧
      path witness.leafWitness = some native.classPath ∧
      absence witness.revocationAbsence = some native.revocationAbsence ∧
      absence witness.spendAbsence = some native.spendAbsence := by
  simp only [chainWitness, Option.bind_eq_bind, Option.bind_eq_some_iff, Option.pure_def,
    Option.some_inj] at hwitness
  obtain ⟨_, hepoch, _, hcertificate, _, hkey, _, hopening, _, hroot, _, hpath, _, hrevocation, _,
    hspend, rfl⟩ := hwitness
  exact ⟨rfl, hepoch, hcertificate, hkey, hopening, hroot, hpath, hrevocation, hspend⟩

-- The bytes' evaluator asks the native clauses and the range of both upper bounds.
theorem chainHolds_iff_clauses (hpoints : PointEncoding) {witness : Circuits.ChainWitness depth}
    {inputs : Circuits.ChainPublicInputs} {native : ChainWitness depth} {inst : ChainInstance}
    (hwitness : chainWitness witness = some native) (hinst : chainInstance inputs = some inst) :
    Circuits.chainHolds witness inputs = true ↔
      (∃ epochKey, ChainClauses epochKey native inst) ∧
        native.revocationAbsence.high.val < 2 ^ 253 ∧ native.spendAbsence.high.val < 2 ^ 253 := by
  obtain ⟨hbytes, hepoch, hcertificate, hkey, hopening, hroot, hpath, hrevocation, hspend⟩ :=
    chainWitness_eq_some hwitness
  obtain ⟨_, hclass, hrevocationRoot, hspendRoot, hagora, hseason⟩ := chainInstance_eq_some.1 hinst
  have hleaf := commit_eq inputs.agora hroot hkey hopening
  have hmessage := epochCertMessage_eq inputs.agora inputs.epoch hepoch
  rw [← hagora, ← hseason] at hmessage
  have hverify := signature_verify_eq hroot hcertificate
  rw [Circuits.chainHolds_iff]
  constructor
  · rintro ⟨pk, message, leaf, hpk, hcorrespondence, hmsg, hcertified, hcommit, hincluded, hrevoked,
      hspent, haction⟩
    obtain rfl := Option.some_inj.1 (hmessage.symm.trans hmsg)
    obtain rfl := Option.some_inj.1 (hleaf.symm.trans hcommit)
    obtain ⟨epochKey, hscalar, rfl⟩ := publicKey_eq_some.1 hpk
    rw [hverify] at hcertified
    rw [verifies_iff hpath hclass, ← hagora] at hincluded
    rw [revocationKey_eq, accumulator_verifiesAbsent_iff hrevocation hrevocationRoot, ← hagora]
      at hrevoked
    rw [migration_eq _ _ hkey, accumulator_verifiesAbsent_iff hspend hspendRoot, ← hagora] at hspent
    refine ⟨⟨epochKey, ?_⟩, hrevoked.2, hspent.2⟩
    exact {
      canonical := by rw [hbytes, hscalar]
      correspondence := (hpoints.toList_eq_iff hepoch).1 hcorrespondence
      certified := hcertified
      included := hincluded
      unrevoked := hrevoked.1
      unspent := hspent.1
      action := (satisfiesAction_iff hinst hscalar hkey).2 haction }
  · rintro ⟨⟨epochKey, hclauses⟩, hrevocationRange, hspendRange⟩
    have hscalar : Signature.scalarFromBytes witness.epochKey.expose = some epochKey := by
      rw [← hbytes]
      exact hclauses.canonical
    refine ⟨Primitives.toBytes (publicKey epochKey), _, _, publicKey_eq_some.2 ⟨_, hscalar, rfl⟩,
      (hpoints.toList_eq_iff hepoch).2 hclauses.correspondence, hmessage, ?_, hleaf, ?_, ?_, ?_,
      (satisfiesAction_iff hinst hscalar hkey).1 hclauses.action⟩
    · rw [hverify]
      exact hclauses.certified
    · rw [verifies_iff hpath hclass, ← hagora]
      exact hclauses.included
    · rw [revocationKey_eq, accumulator_verifiesAbsent_iff hrevocation hrevocationRoot, ← hagora]
      exact ⟨hclauses.unrevoked, hrevocationRange⟩
    · rw [migration_eq _ _ hkey, accumulator_verifiesAbsent_iff hspend hspendRoot, ← hagora]
      exact ⟨hclauses.unspent, hspendRange⟩

-- Every clause of the migration statement, but for the range of the upper bound.
structure MigrationClauses (witness : MigrationWitness depth) (inst : MigrationInstance) :
    Prop where
  included : witness.oldClassPath.root (openedLeaf witness.oldRootPublicKey witness.credentialKey
    witness.oldRootOpening inst.agora) = inst.classRoot
  unrevoked : GapAround (revocationEntry (openedLeaf witness.oldRootPublicKey
    witness.credentialKey witness.oldRootOpening inst.agora)) witness.revocationAbsence
    inst.revocationRoot
  spend : spendOf witness.credentialKey (openedLeaf witness.oldRootPublicKey witness.credentialKey
    witness.oldRootOpening inst.agora) inst.agora = inst.spendNullifier
  certified : verify witness.migrationCertificate witness.oldRootPublicKey
    (Poseidon.hash [Field.ofNat FieldDomain.MIGRATION_CERT, inst.agora,
      (Primitives.coordinates witness.successorPublicKey).1,
      (Primitives.coordinates witness.successorPublicKey).2]) = true
  successor : openedLeaf witness.successorPublicKey witness.credentialKey witness.successorOpening
    inst.agora = inst.successorCommitment

theorem satisfiesMigration_iff {witness : MigrationWitness depth} {inst : MigrationInstance} :
    satisfiesMigration witness inst = true ↔ MigrationClauses witness inst := by
  simp only [satisfiesMigration, Circuits.getD_false_eq_true, Option.bind_eq_bind,
    Option.bind_eq_some_iff, Option.guard_eq_some', exists_const, Option.pure_def, Option.some_inj,
    verifiesAbsent_iff, decide_eq_true_eq]
  constructor
  · rintro ⟨hincluded, hrevocation, hspend, hcertified, hsuccessor⟩
    exact ⟨hincluded, hrevocation, hspend, hcertified, hsuccessor⟩
  · intro hclauses
    exact ⟨hclauses.included, hclauses.unrevoked, hclauses.spend, hclauses.certified,
      hclauses.successor⟩

theorem migrationWitness_eq_some {witness : Circuits.MigrationWitness depth}
    {native : MigrationWitness depth} (hwitness : migrationWitness witness = some native) :
    decodePoint witness.oldRootPublicKey = some native.oldRootPublicKey ∧
      decode witness.oldRootOpening.expose = some native.oldRootOpening ∧
      decode witness.credentialKey.expose = some native.credentialKey ∧
      path witness.oldLeafWitness = some native.oldClassPath ∧
      decodeSignature witness.migrationCertSignature = some native.migrationCertificate ∧
      decodePoint witness.successorPublicKey = some native.successorPublicKey ∧
      decode witness.successorOpening.expose = some native.successorOpening ∧
      absence witness.revocationAbsence = some native.revocationAbsence := by
  simp only [migrationWitness, Option.bind_eq_bind, Option.bind_eq_some_iff, Option.pure_def,
    Option.some_inj] at hwitness
  obtain ⟨_, hroot, _, hopening, _, hkey, _, hpath, _, hcertificate, _, hsuccessor, _,
    hsuccessorOpening, _, hrevocation, rfl⟩ := hwitness
  exact ⟨hroot, hopening, hkey, hpath, hcertificate, hsuccessor, hsuccessorOpening, hrevocation⟩

theorem migrationHolds_iff_clauses {witness : Circuits.MigrationWitness depth}
    {inputs : Circuits.MigrationPublicInputs} {native : MigrationWitness depth}
    {inst : MigrationInstance} (hwitness : migrationWitness witness = some native)
    (hinst : migrationInstance inputs = some inst) :
    Circuits.migrationHolds witness inputs = true ↔
      MigrationClauses native inst ∧ native.revocationAbsence.high.val < 2 ^ 253 := by
  obtain ⟨hroot, hopening, hkey, hpath, hcertificate, hsuccessor, hsuccessorOpening, hrevocation⟩ :=
    migrationWitness_eq_some hwitness
  obtain ⟨hclass, hrevocationRoot, hspend, hcommitment, hagora⟩ :=
    migrationInstance_eq_some.1 hinst
  have hleaf := commit_eq inputs.agora hroot hkey hopening
  have hverify := signature_verify_eq hroot hcertificate
  have hmessage := migrationCertMessage_eq inputs.agora hsuccessor
  rw [← hagora] at hmessage
  have hspent : ∀ leaf : F, inputs.spendNullifier = Nullifier.migration witness.credentialKey
      (.fromBytes (Field.toBytes leaf)) inputs.agora ↔
        spendOf native.credentialKey leaf inst.agora = inst.spendNullifier := by
    intro leaf
    rw [eq_decoded_iff hspend, ← Digest.asBytes_inj, migration_eq leaf inputs.agora hkey, hagora]
  rw [Circuits.migrationHolds_iff]
  constructor
  · rintro ⟨leaf, message, hcommit, hincluded, hrevoked, hspends, hmsg, hcertified, hnext⟩
    obtain rfl := Option.some_inj.1 (hmessage.symm.trans hmsg)
    obtain rfl := Option.some_inj.1 (hleaf.symm.trans hcommit)
    rw [hverify] at hcertified
    rw [verifies_iff hpath hclass, ← hagora] at hincluded
    rw [revocationKey_eq, accumulator_verifiesAbsent_iff hrevocation hrevocationRoot, ← hagora]
      at hrevoked
    rw [hspent, ← hagora] at hspends
    rw [commit_eq_some_iff hsuccessor hkey hsuccessorOpening hcommitment, ← hagora] at hnext
    exact ⟨⟨hincluded, hrevoked.1, hspends, hcertified, hnext⟩, hrevoked.2⟩
  · rintro ⟨hclauses, hrange⟩
    refine ⟨_, _, hleaf, ?_, ?_, ?_, hmessage, ?_, ?_⟩
    · rw [verifies_iff hpath hclass, ← hagora]
      exact hclauses.included
    · rw [revocationKey_eq, accumulator_verifiesAbsent_iff hrevocation hrevocationRoot, ← hagora]
      exact ⟨hclauses.unrevoked, hrange⟩
    · rw [hspent, ← hagora]
      exact hclauses.spend
    · rw [hverify]
      exact hclauses.certified
    · rw [commit_eq_some_iff hsuccessor hkey hsuccessorOpening hcommitment, ← hagora]
      exact hclauses.successor

theorem satisfiesInbox_iff {witness : InboxWitness} {inst : InboxInstance} {action : InboxAction}
    (haction : inst.action = Field.ofNat action.tag) :
    satisfiesInbox witness inst = true ↔
      openedLeaf witness.rootPublicKey witness.credentialKey witness.rootOpening inst.agora =
          inst.leaf ∧
        verify witness.certificate witness.rootPublicKey (Poseidon.hash
          [Field.ofNat FieldDomain.INBOX_CERT, inst.agora, inst.action, inst.inboxKey]) = true := by
  have hinRange : inst.action = Field.ofNat FieldDomain.InboxAction.RETIRE ∨
      inst.action = Field.ofNat FieldDomain.InboxAction.RENEW := by
    rw [haction]
    cases action with
    | Retire => exact Or.inl rfl
    | Renew => exact Or.inr rfl
  simp only [satisfiesInbox, Circuits.getD_false_eq_true, Option.bind_eq_bind,
    Option.bind_eq_some_iff, Option.guard_eq_some', exists_const, Option.pure_def, Option.some_inj,
    hinRange, true_and]

-- The inbox statement has no absence clause, and its evaluators agree.
theorem inbox_agrees {witness : Circuits.InboxWitness} {inputs : Circuits.InboxPublicInputs}
    {native : InboxWitness} {inst : InboxInstance} (hwitness : inboxWitness witness = some native)
    (hinst : inboxInstance inputs = some inst) :
    satisfiesInbox native inst = Circuits.inboxHolds witness inputs := by
  simp only [inboxWitness, Option.bind_eq_bind, Option.bind_eq_some_iff, Option.pure_def,
    Option.some_inj] at hwitness
  obtain ⟨_, hroot, _, hopening, _, hkey, _, hcertificate, rfl⟩ := hwitness
  obtain ⟨hleaf, hagora, hinboxKey, haction⟩ := inboxInstance_eq_some.1 hinst
  have hmessage : Signature.inboxCertMessage inputs.agora inputs.action
      inputs.inboxPublicKey.asBytes.toList = some (Poseidon.hash
        [Field.ofNat FieldDomain.INBOX_CERT, inst.agora, inst.action, inst.inboxKey]) := by
    simp only [Signature.inboxCertMessage, Option.bind_eq_bind, Bytes.ofList?_toList,
      Option.bind_some, Option.pure_def, hagora, hinboxKey, haction]
  rw [Bool.eq_iff_iff, satisfiesInbox_iff haction, Circuits.inboxHolds_iff]
  simp only [commit_eq_some_iff hroot hkey hopening hleaf, hmessage, Option.some_inj,
    signature_verify_eq hroot hcertificate, hagora]
  constructor
  · rintro ⟨hopens, hcertified⟩
    exact ⟨_, hopens, rfl, hcertified⟩
  · rintro ⟨message, hopens, rfl, hcertified⟩
    exact ⟨hopens, hcertified⟩

-- Where the two evaluators agree: always on the inbox statement, and on the others unless every
-- other clause holds of a gap whose upper bound lies past the ordering domain.
theorem evaluators_agree_in_range (hpoints : PointEncoding) (depth : Nat) :
    (∀ (witness : Circuits.ChainWitness depth) (inputs : Circuits.ChainPublicInputs)
        (native : ChainWitness depth) (inst : ChainInstance), chainWitness witness = some native →
      chainInstance inputs = some inst →
      (satisfiesChain native inst = Circuits.chainHolds witness inputs ↔
        ((∃ epochKey, ChainClauses epochKey native inst) →
          native.revocationAbsence.high.val < 2 ^ 253 ∧
            native.spendAbsence.high.val < 2 ^ 253))) ∧
    (∀ (witness : Circuits.MigrationWitness depth) (inputs : Circuits.MigrationPublicInputs)
        (native : MigrationWitness depth) (inst : MigrationInstance),
      migrationWitness witness = some native → migrationInstance inputs = some inst →
      (satisfiesMigration native inst = Circuits.migrationHolds witness inputs ↔
        (MigrationClauses native inst → native.revocationAbsence.high.val < 2 ^ 253))) ∧
    ∀ (witness : Circuits.InboxWitness) (inputs : Circuits.InboxPublicInputs)
        (native : InboxWitness) (inst : InboxInstance), inboxWitness witness = some native →
      inboxInstance inputs = some inst →
      satisfiesInbox native inst = Circuits.inboxHolds witness inputs := by
  refine ⟨?_, ?_, ?_⟩
  · intro witness inputs native inst hwitness hinst
    rw [Bool.eq_iff_iff, satisfiesChain_iff, chainHolds_iff_clauses hpoints hwitness hinst]
    tauto
  · intro witness inputs native inst hwitness hinst
    rw [Bool.eq_iff_iff, satisfiesMigration_iff, migrationHolds_iff_clauses hwitness hinst]
    tauto
  · intro witness inputs native inst hwitness hinst
    exact inbox_agrees hwitness hinst

end

end Nymora.Plonk

namespace Nymora.Plonk.Evaluate.Sample

open Nymora.Core
open Nymora.Crypto
open Nymora.Circuits.Soundness.Sample
open scoped Nymora.Crypto.Reference

theorem pointEncoding : PointEncoding where
  fromBytes_toBytes := Signature.scalarFromBytes_scalarToBytes
  toBytes_of_fromBytes := by
    intro bytes point hfrom
    change Signature.scalarFromBytes bytes = some point at hfrom
    unfold Signature.scalarFromBytes at hfrom
    split at hfrom
    · obtain rfl := Option.some_inj.1 hfrom
      exact Bytes.ofNatLe_toNatLe bytes
    · cases hfrom

-- A gap from zero to the first number past the ordering domain, and the root over its leaf.
def wideGap : Accumulator.AbsenceWitness 1 :=
  { Circuits.Soundness.Sample.absence with high := Bytes.ofNatLe 32 (2 ^ 253) }

def overreaching : Circuits.ChainWitness 1 :=
  { witness credential with revocationAbsence := wideGap }

def accessing : Circuits.ChainPublicInputs := publics (.VerificationAccess [1])

def widened : Circuits.ChainPublicInputs :=
  { accessing with
    revocationRoot :=
      Accumulator.fold (Accumulator.gapLeaf wideGap.low wideGap.high) wideGap.witness }

def native (witness : Circuits.ChainWitness 1) (hconverts : (chainWitness witness).isSome) :
    ChainWitness 1 := (chainWitness witness).get hconverts

def inst (inputs : Circuits.ChainPublicInputs) (hconverts : (chainInstance inputs).isSome) :
    ChainInstance := (chainInstance inputs).get hconverts

theorem honest_converts :
    (chainWitness (witness credential)).isSome ∧ (chainInstance accessing).isSome := by
  decide +kernel

theorem overreaching_converts :
    (chainWitness overreaching).isSome ∧ (chainInstance widened).isSome := by
  decide +kernel

theorem evaluators_agree_in_range_honest :
    satisfiesChain (native (witness credential) honest_converts.1)
        (inst accessing honest_converts.2) =
      Circuits.chainHolds (witness credential) accessing := by
  apply ((evaluators_agree_in_range pointEncoding 1).1 _ _ _ _ (Option.some_get _).symm
    (Option.some_get _).symm).2
  intro _
  exact ⟨by decide +kernel, by decide +kernel⟩

-- The witness the circuits' evaluator passes on to proving and the stub refuses.
theorem wide_gap_divides_the_evaluators :
    satisfiesChain (native overreaching overreaching_converts.1)
        (inst widened overreaching_converts.2) = true ∧
      Circuits.chainHolds overreaching widened = false := by
  decide +kernel

end Nymora.Plonk.Evaluate.Sample
