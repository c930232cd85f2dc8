import Nymora.Crypto.Hash.Theorems
import Nymora.Crypto.Reference
import Nymora.Crypto.Signature.Theorems
import Nymora.Ports.KeyStore

namespace Nymora.Ports

open Nymora.Core
open Nymora.Crypto
open Nymora.Crypto.Signature (SigningSeed)

section Contract

variable [Primitives]

-- A signature over exactly the canonical message of a payload, under a root.
def SignsMessage (root : Bytes 32) (message : Option F) (signature : List UInt8) : Prop :=
  ∃ value, message = some value ∧ Signature.verify root.toList value signature = true

-- What the port asks of every backend: one root for each agora, and whatever it signs is signed
-- under that root, over the payload's canonical message.
structure KeyStore.Honours (keyStore : KeyStore) (root : AgoraId → Bytes 32) : Prop where
  creates : ∀ agora publicKeySize bindingSize material,
    keyStore.createRoot agora publicKeySize bindingSize = .ok material →
      material.publicKey.val = (root agora).toList
  epochCert : ∀ payload size signature, keyStore.signEpochCert payload size = .ok signature →
    SignsMessage (root payload.agora)
      (Signature.epochCertMessage payload.agora payload.epoch payload.epochPublicKey) signature.val
  migration : ∀ payload size signature, keyStore.signMigration payload size = .ok signature →
    SignsMessage (root payload.agora)
      (Signature.migrationCertMessage payload.agora payload.successorPublicKey) signature.val
  inboxCert : ∀ payload size signature, keyStore.signInboxCert payload size = .ok signature →
    SignsMessage (root payload.agora)
      (Signature.inboxCertMessage payload.agora payload.action payload.inboxPublicKey)
      signature.val

end Contract

-- Separator of the root-seed derivation: local, not a protocol domain tag.
def ROOT : List UInt8 := "software-key-store/v0/root".toUTF8.data.toList

-- Writes a value into a buffer of the given size, or reports it too small.
def put (size : Nat) (value : List UInt8) : Except ProtocolError (Written size) :=
  if hlength : value.length ≤ size then .ok ⟨value, hlength⟩ else .error .Malformed

-- A software-only root authority: every agora's root comes from one seed.
structure SoftwareKeyStore where
  seed : Bytes 32
deriving DecidableEq

namespace SoftwareKeyStore

-- What one agora's root key is hashed from.
def rootStream (store : SoftwareKeyStore) (agora : AgoraId) : List UInt8 :=
  framed ROOT ++ framed store.seed.toList ++ framed agora.asBytes.toList

variable [Primitives]

def rootKey (store : SoftwareKeyStore) (agora : AgoraId) : SigningSeed :=
  .mint (Primitives.sha256 (store.rootStream agora))

-- No message means the payload's key bytes name no subgroup point.
def signMessage (store : SoftwareKeyStore) (agora : AgoraId) (message : Option F) :
    Except ProtocolError (Bytes 64) :=
  match message with
  | none => .error .Malformed
  | some message =>
      match Signature.sign (store.rootKey agora).expose message with
      | none => .error .Malformed
      | some signature => .ok signature

def signed (store : SoftwareKeyStore) (agora : AgoraId) (message : Option F) (size : Nat) :
    Except ProtocolError (Written size) := do
  let value ← store.signMessage agora message
  put size value.toList

def keyStore (store : SoftwareKeyStore) : KeyStore where
  createRoot agora publicKeySize _ := do
    let publicKey ← put publicKeySize (store.rootKey agora).publicKey.toList
    return ⟨publicKey, none⟩
  signEpochCert payload size :=
    store.signed payload.agora
      (Signature.epochCertMessage payload.agora payload.epoch payload.epochPublicKey) size
  signMigration payload size :=
    store.signed payload.agora
      (Signature.migrationCertMessage payload.agora payload.successorPublicKey) size
  signInboxCert payload size :=
    store.signed payload.agora
      (Signature.inboxCertMessage payload.agora payload.action payload.inboxPublicKey) size

-- The root an agora's certificates verify under.
def root (store : SoftwareKeyStore) (agora : AgoraId) : Bytes 32 := (store.rootKey agora).publicKey

variable {store : SoftwareKeyStore} {agora : AgoraId}

omit [Primitives] in
theorem put_eq_ok {size : Nat} {value : List UInt8} {written : Written size} :
    put size value = .ok written ↔ written.val = value := by
  unfold put
  by_cases hlength : value.length ≤ size
  · rw [dif_pos hlength, Except.ok.injEq, Subtype.ext_iff]
    exact eq_comm
  · rw [dif_neg hlength]
    constructor
    · intro herror
      cases herror
    · intro hvalue
      exact absurd (hvalue ▸ written.property) hlength

omit [Primitives] in
theorem put_refusal {size : Nat} {value : List UInt8} {refusal : ProtocolError}
    (hrefused : put size value = .error refusal) : refusal = .Malformed := by
  unfold put at hrefused
  by_cases hlength : value.length ≤ size
  · rw [dif_pos hlength] at hrefused
    cases hrefused
  · rw [dif_neg hlength] at hrefused
    exact (Except.error.inj hrefused).symm

theorem signMessage_some (message : F) :
    store.signMessage agora (some message) = .ok ((store.rootKey agora).sign message) := by
  have hsign : Signature.sign (store.rootKey agora).expose message =
      some ((store.rootKey agora).sign message) := (Option.some_get _).symm
  simp only [signMessage, hsign]

-- One signing method, whatever its message.
theorem signed_eq (message : Option F) (size : Nat) :
    store.signed agora message size =
      (message.map fun value => ((store.rootKey agora).sign value).toList).elim
        (.error .Malformed) (put size) := by
  cases message with
  | none => rfl
  | some value =>
      rw [signed, signMessage_some]
      rfl

theorem signed_eq_ok {message : Option F} {size : Nat} {written : Written size} :
    store.signed agora message size = .ok written ↔
      ∃ value, message = some value ∧
        written.val = ((store.rootKey agora).sign value).toList := by
  rw [signed_eq]
  cases message with
  | none => simp
  | some value => simp [put_eq_ok]

-- A signing method answers exactly where there is a message and the signature fits.
theorem signed_answers {message : Option F} {size : Nat} :
    (∃ written, store.signed agora message size = .ok written) ↔
      message.isSome ∧ 64 ≤ size := by
  simp only [signed_eq_ok]
  constructor
  · rintro ⟨written, value, rfl, hwritten⟩
    have hlength := congrArg List.length hwritten
    rw [Bytes.length_toList] at hlength
    exact ⟨rfl, hlength ▸ written.property⟩
  · rintro ⟨hmessage, hsize⟩
    obtain ⟨value, rfl⟩ := Option.isSome_iff_exists.1 hmessage
    refine ⟨⟨((store.rootKey agora).sign value).toList, ?_⟩, value, rfl, rfl⟩
    rw [Bytes.length_toList]
    exact hsize

theorem signed_refusal {message : Option F} {size : Nat} {refusal : ProtocolError}
    (hrefused : store.signed agora message size = .error refusal) : refusal = .Malformed := by
  rw [signed_eq] at hrefused
  cases message with
  | none => exact (Except.error.inj hrefused).symm
  | some value => exact put_refusal hrefused

theorem signsMessage_of_signed (hcorrect : Signature.Correct) {message : Option F} {size : Nat}
    {written : Written size} (hsigned : store.signed agora message size = .ok written) :
    SignsMessage (store.root agora) message written.val := by
  obtain ⟨value, rfl, hwritten⟩ := signed_eq_ok.1 hsigned
  refine ⟨value, rfl, ?_⟩
  rw [hwritten]
  exact hcorrect (store.rootKey agora) value

theorem createRoot_eq_ok {publicKeySize bindingSize : Nat}
    {material : RootMaterialWritten publicKeySize bindingSize} :
    store.keyStore.createRoot agora publicKeySize bindingSize = .ok material ↔
      material.publicKey.val = (store.root agora).toList ∧ material.binding = none := by
  obtain ⟨publicKey, binding⟩ := material
  simp only [keyStore, root]
  cases hput : put publicKeySize (store.rootKey agora).publicKey.toList with
  | error refusal =>
      constructor
      · intro hok
        cases hok
      · rintro ⟨hkey, -⟩
        have hok := put_eq_ok.2 hkey
        exact nomatch hput.symm.trans hok
  | ok written =>
      have hwritten := put_eq_ok.1 hput
      constructor
      · intro hok
        cases hok
        exact ⟨hwritten, rfl⟩
      · rintro ⟨hkey, hbinding⟩
        have hsame : written = publicKey := Subtype.ext (hwritten.trans hkey.symm)
        subst hsame hbinding
        rfl

theorem createRoot_refusal {publicKeySize bindingSize : Nat} {refusal : ProtocolError}
    (hrefused : store.keyStore.createRoot agora publicKeySize bindingSize = .error refusal) :
    refusal = .Malformed := by
  simp only [keyStore] at hrefused
  cases hput : put publicKeySize (store.rootKey agora).publicKey.toList with
  | ok written =>
      rw [hput] at hrefused
      cases hrefused
  | error thrown =>
      rw [hput] at hrefused
      cases hrefused
      exact put_refusal hput

-- The signatures are the real scheme's, so that this backend keeps the port's contract.
theorem keyStore_honours (hcorrect : Signature.Correct) (store : SoftwareKeyStore) :
    store.keyStore.Honours store.root where
  creates _ _ _ _ hcreated := (createRoot_eq_ok.1 hcreated).1
  epochCert _ _ _ hsigned := signsMessage_of_signed hcorrect hsigned
  migration _ _ _ hsigned := signsMessage_of_signed hcorrect hsigned
  inboxCert _ _ _ hsigned := signsMessage_of_signed hcorrect hsigned

omit [Primitives] in
theorem fits_rootStream (store : SoftwareKeyStore) (agora : AgoraId) :
    ∀ part ∈ [ROOT, store.seed.toList, agora.asBytes.toList], Framing.Fits 8 part := by
  have hroot : ROOT.length = 26 := by decide +kernel
  intro part hmem
  simp only [List.mem_cons, List.not_mem_nil, or_false] at hmem
  rcases hmem with rfl | rfl | rfl
  · rw [Framing.Fits, hroot]
    decide
  · rw [Framing.Fits, Bytes.length_toList]
    decide
  · rw [Framing.Fits, Bytes.length_toList]
    decide

omit [Primitives] in
-- No two seeds and no two agoras hash the same stream for their root.
theorem rootStream_inj {other : SoftwareKeyStore} {elsewhere : AgoraId}
    (hsame : store.rootStream agora = other.rootStream elsewhere) :
    store = other ∧ agora = elsewhere := by
  have hparts := framed_inj (fits_rootStream store agora) (fits_rootStream other elsewhere)
    (by simpa [rootStream] using hsame)
  simp only [List.cons.injEq, Bytes.toList_inj, Digest.asBytes_inj, and_true, true_and] at hparts
  obtain ⟨seed⟩ := store
  obtain ⟨otherSeed⟩ := other
  obtain ⟨rfl, rfl⟩ := hparts
  exact ⟨rfl, rfl⟩

end SoftwareKeyStore

-- What the software store answers, it answers as the port asks; it refuses only as malformed, a
-- short buffer or key bytes without a message; and every seed and agora has a root of its own.
theorem software_key_store_serves [Primitives] (hcorrect : Signature.Correct)
    (store : SoftwareKeyStore) :
    store.keyStore.Honours store.root ∧
    (∀ agora publicKeySize bindingSize,
      ((∃ material, store.keyStore.createRoot agora publicKeySize bindingSize = .ok material) ↔
        32 ≤ publicKeySize) ∧
      (∀ material, store.keyStore.createRoot agora publicKeySize bindingSize = .ok material →
        material.binding = none) ∧
      ∀ refusal, store.keyStore.createRoot agora publicKeySize bindingSize = .error refusal →
        refusal = .Malformed) ∧
    (∀ payload size,
      ((∃ signature, store.keyStore.signEpochCert payload size = .ok signature) ↔
        (Signature.epochCertMessage payload.agora payload.epoch payload.epochPublicKey).isSome ∧
          64 ≤ size) ∧
      ∀ refusal, store.keyStore.signEpochCert payload size = .error refusal →
        refusal = .Malformed) ∧
    (∀ payload size,
      ((∃ signature, store.keyStore.signMigration payload size = .ok signature) ↔
        (Signature.migrationCertMessage payload.agora payload.successorPublicKey).isSome ∧
          64 ≤ size) ∧
      ∀ refusal, store.keyStore.signMigration payload size = .error refusal →
        refusal = .Malformed) ∧
    (∀ payload size,
      ((∃ signature, store.keyStore.signInboxCert payload size = .ok signature) ↔
        (Signature.inboxCertMessage payload.agora payload.action payload.inboxPublicKey).isSome ∧
          64 ≤ size) ∧
      ∀ refusal, store.keyStore.signInboxCert payload size = .error refusal →
        refusal = .Malformed) ∧
    ∀ other agora elsewhere, store.rootStream agora = other.rootStream elsewhere →
      store = other ∧ agora = elsewhere := by
  refine ⟨store.keyStore_honours hcorrect, ?_, ?_, ?_, ?_, ?_⟩
  · intro agora publicKeySize bindingSize
    refine ⟨?_, fun material hcreated => (SoftwareKeyStore.createRoot_eq_ok.1 hcreated).2,
      fun refusal => SoftwareKeyStore.createRoot_refusal⟩
    simp only [SoftwareKeyStore.createRoot_eq_ok]
    constructor
    · rintro ⟨material, hkey, -⟩
      have hlength := congrArg List.length hkey
      rw [Bytes.length_toList] at hlength
      exact hlength ▸ material.publicKey.property
    · intro hsize
      refine ⟨⟨⟨(store.root agora).toList, ?_⟩, none⟩, rfl, rfl⟩
      rw [Bytes.length_toList]
      exact hsize
  · intro payload size
    exact ⟨SoftwareKeyStore.signed_answers, fun _ => SoftwareKeyStore.signed_refusal⟩
  · intro payload size
    exact ⟨SoftwareKeyStore.signed_answers, fun _ => SoftwareKeyStore.signed_refusal⟩
  · intro payload size
    exact ⟨SoftwareKeyStore.signed_answers, fun _ => SoftwareKeyStore.signed_refusal⟩
  · intro other agora elsewhere hsame
    exact SoftwareKeyStore.rootStream_inj hsame

end Nymora.Ports

namespace Nymora.Ports.Software.Sample

open Nymora.Core
open Nymora.Crypto
open scoped Nymora.Crypto.Reference

def seeded : SoftwareKeyStore := ⟨Bytes.replicate 32 0x5a⟩

theorem software_key_store_serves_seeded : seeded.keyStore.Honours seeded.root :=
  (software_key_store_serves Reference.signature_correct seeded).1

end Nymora.Ports.Software.Sample
