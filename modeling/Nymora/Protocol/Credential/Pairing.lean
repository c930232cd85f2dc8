import Nymora.Protocol.Credential.Handover
import Nymora.Protocol.Proving

namespace Nymora.Protocol.Credential

open Nymora.Core
open Nymora.Crypto
open Nymora.Crypto.Signature (SigningSeed)
open Nymora.Ports
open FaultyStore (Confined Erased)
open Method
open Runs

section Records

variable [Primitives]

-- A roll of the run certified a public key for an epoch: it is the roll's own new key, the roll's
-- key store signed for it, and the roll left the record of both stored.
def SignedIn (agora : AgoraId) (past : List Happened) (epoch : Epoch)
    (publicKey signature : List UInt8) : Prop :=
  ∃ happened ∈ past, ∃ keyStore epochSecret recordSize room written,
    happened.call.request = .rollEpoch keyStore epoch epochSecret recordSize ∧
    publicKey = (SigningSeed.mint epochSecret).publicKey.toList ∧
    keyStore.signEpochCert ⟨agora, epoch, publicKey⟩ room = .ok written ∧
    written.val = signature ∧
    happened.after (agora, .EpochCert epoch) =
      some (Framing.frame 8 publicKey ++ Framing.frame 8 signature)

-- The record of a key: its public half, framed, and a signature of the run over it.
def Certifies (agora : AgoraId) (past : List Happened) (epoch : Epoch) (seed : SigningSeed)
    (record : List UInt8) : Prop :=
  ∃ signature, record = Framing.frame 8 seed.publicKey.toList ++ Framing.frame 8 signature ∧
    SignedIn agora past epoch seed.publicKey.toList signature

-- Every stored record certifies some key, and where a key is stored beside it, that key.
structure Paired (agora : AgoraId) (past : List Happened) (contents : Contents) : Prop where
  certified : ∀ epoch record, contents (agora, .EpochCert epoch) = some record →
    ∃ seed, Certifies agora past epoch seed record
  paired : ∀ epoch key record, contents (agora, .EpochKey epoch) = some key →
    contents (agora, .EpochCert epoch) = some record →
      ∃ seed : SigningSeed, key = seed.expose.toList ∧ Certifies agora past epoch seed record

-- A roll that has signed and stored its key, and then fails both to store the certificate and to
-- take the key back, found no certificate of its epoch, or one of the same public key.
def Happened.KeepsPair (agora : AgoraId) (happened : Happened) : Prop :=
  ∀ keyStore current epochSecret recordSize cursor,
    happened.call.request = .rollEpoch keyStore current epochSecret recordSize →
    CursorIs agora happened.before cursor → checkedReach cursor current = .ok () →
    (∃ record, signEpochRecord agora keyStore current
      (SigningSeed.mint epochSecret).publicKey.toList recordSize = .ok record) →
    (∀ index, index < 3 + sweepLength cursor current →
      happened.call.faults.getD index none = none) →
    happened.call.faults.getD (3 + sweepLength cursor current) none ≠ none →
    happened.call.faults.getD (4 + sweepLength cursor current) none ≠ none →
    ∀ record, happened.before (agora, .EpochCert current) = some record →
      ∃ rest, record =
        Framing.frame 8 (SigningSeed.mint epochSecret).publicKey.toList ++ rest

variable {agora : AgoraId} {past : List Happened} {before after : Contents} {current : Epoch}

theorem fits_publicKey (seed : SigningSeed) : Framing.Fits 8 seed.publicKey.toList := by
  rw [Framing.Fits, Bytes.length_toList]
  decide

-- The key a record certifies is read off its first frame.
theorem Certifies.of_frame {seed other : SigningSeed} {record rest : List UInt8}
    (hcertifies : Certifies agora past current other record)
    (hrecord : record = Framing.frame 8 seed.publicKey.toList ++ rest) :
    Certifies agora past current seed record := by
  obtain ⟨signature, hother, hsigned⟩ := hcertifies
  obtain ⟨hkey, _⟩ := Framing.frame_append_inj (fits_publicKey other) (fits_publicKey seed)
    (hother.symm.trans hrecord)
  rw [hkey] at hother hsigned
  exact ⟨signature, hother, hsigned⟩

-- Keeping or losing slots keeps the pairing.
theorem Paired.of_kept (hpaired : Paired agora past before)
    (hkept : ∀ key ∈ acting agora, after key = before key ∨ after key = none) :
    Paired agora past after := by
  have hsame : ∀ slot epoch value, slot.actsIn = some epoch →
      after (agora, slot) = some value → before (agora, slot) = some value := by
    intro slot epoch value hslot hvalue
    have hmem : (agora, slot) ∈ acting agora := actingIn_subset_acting ⟨rfl, hslot⟩
    rcases hkept _ hmem with heq | hnone
    · rw [← heq]
      exact hvalue
    · exact nomatch hnone.symm.trans hvalue
  constructor
  · intro epoch record hrecord
    exact hpaired.certified epoch record (hsame _ epoch record rfl hrecord)
  · intro epoch key record hkey hrecord
    exact hpaired.paired epoch key record (hsame _ epoch key rfl hkey)
      (hsame _ epoch record rfl hrecord)

-- So does writing one epoch's slots so that they pair up.
theorem Paired.of_written (current : Epoch) (hpaired : Paired agora past before)
    (hkept : ∀ key ∈ acting agora, key ∉ actingIn agora current →
      after key = before key ∨ after key = none)
    (hwritten : ∀ record, after (agora, .EpochCert current) = some record →
      ∃ seed : SigningSeed, Certifies agora past current seed record ∧
        after (agora, .EpochKey current) = some seed.expose.toList) :
    Paired agora past after := by
  have hsame : ∀ slot epoch value, slot.actsIn = some epoch → epoch ≠ current →
      after (agora, slot) = some value → before (agora, slot) = some value := by
    intro slot epoch value hslot hepoch hvalue
    have hmem : (agora, slot) ∈ acting agora := actingIn_subset_acting ⟨rfl, hslot⟩
    have hother : (agora, slot) ∉ actingIn agora current := by
      intro hcurrent
      exact hepoch (Option.some.inj (hslot.symm.trans hcurrent.2))
    rcases hkept _ hmem hother with heq | hnone
    · rw [← heq]
      exact hvalue
    · exact nomatch hnone.symm.trans hvalue
  constructor
  · intro epoch record hrecord
    by_cases hepoch : epoch = current
    · subst hepoch
      obtain ⟨seed, hcertifies, _⟩ := hwritten record hrecord
      exact ⟨seed, hcertifies⟩
    · exact hpaired.certified epoch record (hsame _ epoch record rfl hepoch hrecord)
  · intro epoch key record hkey hrecord
    by_cases hepoch : epoch = current
    · subst hepoch
      obtain ⟨seed, hcertifies, hseed⟩ := hwritten record hrecord
      exact ⟨seed, Option.some.inj (hkey.symm.trans hseed), hcertifies⟩
    · exact hpaired.paired epoch key record (hsame _ epoch key rfl hepoch hkey)
        (hsame _ epoch record rfl hepoch hrecord)

end Records

section Steps

variable [Primitives] {agora : AgoraId} {past : List Happened} {contents : Contents} {call : Call}
  {keyStore : KeyStore} {current : Epoch} {epochSecret : FreshEntropy} {recordSize : Nat}
  {faults : List (Option ProtocolError)}

theorem certifies_of_sign {record : List UInt8}
    (hmem : event (perform agora) contents
      ⟨.rollEpoch keyStore current epochSecret recordSize, faults⟩ ∈ past)
    (hsign : signEpochRecord agora keyStore current
      (SigningSeed.mint epochSecret).publicKey.toList recordSize = .ok record)
    (hstored : (perform agora contents
      ⟨.rollEpoch keyStore current epochSecret recordSize, faults⟩).2 (agora, .EpochCert current) =
        some record) : Certifies agora past current (SigningSeed.mint epochSecret) record := by
  obtain ⟨room, written, hwritten, rfl⟩ := signEpochRecord_ok hsign
  exact ⟨written.val, rfl, _, hmem, keyStore, epochSecret, recordSize, room, written, rfl, rfl,
    hwritten, rfl, hstored⟩

theorem paired_roll_ok {after : SecureStorage} (hpaired : Paired agora past contents)
    (hmem : event (perform agora) contents
      ⟨.rollEpoch keyStore current epochSecret recordSize, faults⟩ ∈ past)
    (hroll : rollEpoch agora keyStore current epochSecret recordSize ⟨contents, faults⟩ =
      .ok () after) : Paired agora past after.held := by
  obtain ⟨cursor, discarded, record, _, _, hsign, herased, hheld⟩ := rollEpoch_ok hroll
  refine hpaired.of_written current ?_ ?_
  · rintro ⟨owner, slot⟩ hacting hother
    have hkeyNe : (owner, slot) ≠ (agora, .EpochKey current) := by
      intro heq
      exact hother (heq ▸ ⟨rfl, rfl⟩)
    have hcertNe : (owner, slot) ≠ (agora, .EpochCert current) := by
      intro heq
      exact hother (heq ▸ ⟨rfl, rfl⟩)
    have hcursorNe : (owner, slot) ≠ (agora, .EpochCursor) := by
      intro heq
      exact cursor_notMem_acting (heq ▸ hacting)
    rw [hheld, Function.update_of_ne hcursorNe, Function.update_of_ne hcertNe,
      Function.update_of_ne hkeyNe]
    by_cases hswept : (owner, slot) ∈ swept agora cursor current
    · exact .inr (herased.gone _ hswept)
    · exact .inl (herased.kept _ hswept)
  · intro stored hstored
    have hrecord : record = stored := by simpa [hheld] using hstored
    subst hrecord
    refine ⟨SigningSeed.mint epochSecret, certifies_of_sign hmem hsign ?_, by simp [hheld]⟩
    rw [perform_eq_of_ok (.rollEpoch keyStore current epochSecret recordSize) hroll]
    exact hstored

-- The one bad outcome, the new key beside another key's certificate, is what the guard excludes.
theorem paired_roll_error {refusal : ProtocolError} {after : SecureStorage}
    (hpaired : Paired agora past contents)
    (hkeeps : Happened.KeepsPair agora (event (perform agora) contents
      ⟨.rollEpoch keyStore current epochSecret recordSize, faults⟩))
    (hmem : event (perform agora) contents
      ⟨.rollEpoch keyStore current epochSecret recordSize, faults⟩ ∈ past)
    (hroll : rollEpoch agora keyStore current epochSecret recordSize ⟨contents, faults⟩ =
      .error refusal after) : Paired agora past after.held := by
  rcases rollEpoch_error_pair hroll with hconfined | hwritten
  · refine hpaired.of_kept fun key _ => ?_
    rcases hconfined key (Set.notMem_empty key) with hkept | ⟨_, hgone⟩
    · exact .inl hkept
    · exact .inr hgone
  obtain ⟨cursor, record, hcursor, hreach, hsign, hconfined, hkey, hcert⟩ := hwritten
  refine hpaired.of_written current ?_ ?_
  · intro key _ hother
    rcases hconfined key hother with hkept | ⟨_, hgone⟩
    · exact .inl hkept
    · exact .inr hgone
  intro stored hstored
  refine ⟨SigningSeed.mint epochSecret, ?_, hkey⟩
  rcases hcert with hnew | ⟨hold, hworked, hthird, hfourth⟩
  · obtain rfl := Option.some.inj (hnew.symm.trans hstored)
    refine certifies_of_sign hmem hsign ?_
    rw [perform_eq_of_error (.rollEpoch keyStore current epochSecret recordSize) hroll]
    exact hstored
  · have hbefore : contents (agora, .EpochCert current) = some stored := hold.symm.trans hstored
    obtain ⟨rest, hrest⟩ := hkeeps keyStore current epochSecret recordSize cursor rfl hcursor
      hreach ⟨record, hsign⟩ hworked hthird hfourth stored hbefore
    obtain ⟨other, hcertifies⟩ := hpaired.certified current stored hbefore
    exact hcertifies.of_frame hrest

theorem paired_perform (hpaired : Paired agora past contents)
    (hkeeps : Happened.KeepsPair agora (event (perform agora) contents call))
    (hmem : event (perform agora) contents call ∈ past) :
    Paired agora past (perform agora contents call).2 := by
  obtain ⟨request, faults⟩ := call
  cases request with
  | create keyStore entropy publicKeySize bindingSize =>
      rw [perform_snd]
      refine hpaired.of_kept fun key hkey => ?_
      have hconfined := moves_run_create agora keyStore entropy publicKeySize bindingSize
        ⟨contents, faults⟩
      exact .inl (hconfined.held_eq (Set.notMem_empty _) (durable_disjoint (.inl hkey)))
  | rollEpoch keyStore current epochSecret recordSize =>
      cases hroll : rollEpoch agora keyStore current epochSecret recordSize ⟨contents, faults⟩ with
      | ok result after =>
          rw [perform_eq_of_ok (.rollEpoch keyStore current epochSecret recordSize) hroll]
          exact paired_roll_ok hpaired hmem hroll
      | error refusal after =>
          rw [perform_eq_of_error (.rollEpoch keyStore current epochSecret recordSize) hroll]
          exact paired_roll_error hpaired hkeeps hmem hroll
  | discardExpired current =>
      rw [perform_snd]
      refine hpaired.of_kept fun key _ => ?_
      have hconfined : Confined (acting agora) ∅ _ (left (discardExpired agora current
        ⟨contents, faults⟩)) := moves_discardExpired _
      rcases hconfined key (Set.notMem_empty key) with hkept | ⟨_, hgone⟩
      · exact .inl hkept
      · exact .inr hgone

theorem BlankEpochs.paired {start : Contents} (hblank : BlankEpochs agora start) :
    Paired agora past start := by
  constructor
  · intro epoch record hrecord
    exact nomatch (hblank.2 epoch).2.symm.trans hrecord
  · intro epoch key record hkey _
    exact nomatch (hblank.2 epoch).1.symm.trans hkey

theorem paired_final {start : Contents} (hblank : BlankEpochs agora start) {calls : List Call}
    (hkeeps : ∀ happened ∈ events (perform agora) start calls, Happened.KeepsPair agora happened) :
    Paired agora (events (perform agora) start calls) (final (perform agora) start calls) := by
  have hguard : ∀ happened ∈ events (perform agora) start calls,
      Happened.KeepsPair agora happened ∧ happened ∈ events (perform agora) start calls :=
    fun happened hmem => ⟨hkeeps happened hmem, hmem⟩
  refine guarded_final hblank.paired ?_ hguard
  intro before call hkept hbefore
  exact paired_perform hbefore hkept.1 hkept.2

end Steps

section Loading

variable {agora : AgoraId} {past : List Happened} {epoch : Epoch}

theorem loadEpochRecord_ok {size : Nat} {found : Option EpochRecord} {storage after : SecureStorage}
    (hload : loadEpochRecord agora epoch size storage = .ok found after) :
    after = storage.used storage.held ∧ ∀ record, found = some record →
      ∃ bytes, storage.held (agora, .EpochCert epoch) = some bytes ∧
        EpochRecord.decode bytes = .ok record := by
  unfold loadEpochRecord at hload
  rw [bind_eq_ok] at hload
  obtain ⟨value, middle, hread, hvalue⟩ := hload
  obtain ⟨_, rfl, hheld, _⟩ := SecureStorage.load_eq_ok.1 hread
  cases value with
  | none =>
      obtain ⟨rfl, rfl⟩ := pure_eq_ok.1 hvalue
      exact ⟨rfl, fun record hrecord => (nomatch hrecord)⟩
  | some bytes =>
      cases hdecode : EpochRecord.decode bytes with
      | ok record =>
          simp only [hdecode] at hvalue
          obtain ⟨rfl, rfl⟩ := pure_eq_ok.1 hvalue
          refine ⟨rfl, fun other hother => ⟨bytes, hheld, ?_⟩⟩
          rw [← Option.some.inj hother]
          exact hdecode
      | error refusal =>
          simp only [hdecode] at hvalue
          exact absurd hvalue throw_eq_ok

-- Two frames that fill a record are read back as they were written.
theorem decode_frames {publicKey signature : List UInt8} {record : EpochRecord}
    (hfits : Framing.Fits 8 publicKey)
    (hdecode : EpochRecord.decode
      (Framing.frame 8 publicKey ++ Framing.frame 8 signature) = .ok record) :
    record = ⟨publicKey, signature⟩ := by
  unfold EpochRecord.decode at hdecode
  rw [Framing.unframe_frame_append hfits] at hdecode
  simp only at hdecode
  split at hdecode
  · cases hdecode
  · next found rest hread =>
      obtain ⟨hframe, hfound⟩ := Framing.eq_frame_append_of_unframe hread
      split at hdecode
      · next hrest =>
          rw [hrest, List.append_nil] at hframe
          have hsignature : signature = found := by
            unfold Framing.frame at hframe
            exact List.append_inj_right hframe (by simp)
          rw [hsignature, ← Except.ok.inj hdecode]
      · cases hdecode

variable [Primitives]

-- What is loaded to act in an epoch: a key, its public half, and a signature of the run over it.
def Matched (agora : AgoraId) (past : List Happened) (epoch : Epoch)
    (material : ActingMaterial) : Prop :=
  ∃ publicKey, Signature.publicKey material.epochKey.expose = some publicKey ∧
    material.epochRecord.publicKey = publicKey.toList ∧
    SignedIn agora past epoch publicKey.toList material.epochRecord.signature

theorem matched_of_load {contents : Contents} (hpaired : Paired agora past contents)
    {faults : List (Option ProtocolError)} {rootPublicKeySize recordSize : Nat}
    {material : ActingMaterial} {after : SecureStorage}
    (hload : loadActingMaterial agora epoch rootPublicKeySize recordSize ⟨contents, faults⟩ =
      .ok material after) : Matched agora past epoch material := by
  unfold loadActingMaterial at hload
  rw [bind_eq_ok] at hload
  obtain ⟨credentialKey, _, hcredential, hload⟩ := hload
  obtain ⟨_, rfl⟩ := loadSecret32_ok hcredential
  rw [bind_eq_ok] at hload
  obtain ⟨rootOpening, _, hopening, hload⟩ := hload
  obtain ⟨_, rfl⟩ := loadSecret32_ok hopening
  rw [bind_eq_ok] at hload
  obtain ⟨epochKey, _, hepochKey, hload⟩ := hload
  obtain ⟨hkey, rfl⟩ := loadSecret32_ok hepochKey
  rw [bind_eq_ok] at hload
  obtain ⟨_, _, hroot, hload⟩ := hload
  obtain ⟨_, rfl, _, _⟩ := SecureStorage.load_eq_ok.1 hroot
  rw [expect_bind_eq_ok] at hload
  obtain ⟨rootPublicKey, _, hload⟩ := hload
  rw [bind_eq_ok] at hload
  obtain ⟨found, _, hrecord, hload⟩ := hload
  rw [expect_bind_eq_ok] at hload
  obtain ⟨record, rfl, hload⟩ := hload
  obtain ⟨rfl, _⟩ := pure_eq_ok.1 hload
  obtain ⟨bytes, hcert, hdecode⟩ := (loadEpochRecord_ok hrecord).2 record rfl
  obtain ⟨seed, hseed, signature, rfl, hsigned⟩ := hpaired.paired epoch _ _ hkey hcert
  obtain rfl := decode_frames (fits_publicKey seed) hdecode
  obtain rfl := Bytes.toList_inj.1 hseed
  exact ⟨seed.publicKey, (Option.some_get _).symm, rfl, hsigned⟩

end Loading

section AlongRuns

variable [Primitives] {agora : AgoraId}

-- What a roll does before it changes anything: the certificate record it will store.
def certifyEpoch (agora : AgoraId) (keyStore : KeyStore) (current : Epoch)
    (epochSecret : FreshEntropy) (recordSize : Nat) : Storing (List UInt8) := do
  let cursor ← loadCursor agora
  expectOk (checkedReach cursor current)
  expectOk (signEpochRecord agora keyStore current
    (SigningSeed.mint epochSecret).publicKey.toList recordSize)

-- Everything a storage lets act in an epoch is matched, whatever buffers it is loaded into.
def LoadsMatched (agora : AgoraId) (past : List Happened) (contents : Contents) : Prop :=
  ∀ epoch rootPublicKeySize recordSize faults material after,
    loadActingMaterial agora epoch rootPublicKeySize recordSize ⟨contents, faults⟩ =
      .ok material after → Matched agora past epoch material

theorem perform_of_certifyEpoch_error {keyStore : KeyStore} {current : Epoch}
    {epochSecret : FreshEntropy} {recordSize : Nat} {contents : Contents}
    {faults : List (Option ProtocolError)} {refusal : ProtocolError} {after : SecureStorage}
    (hcertify : certifyEpoch agora keyStore current epochSecret recordSize ⟨contents, faults⟩ =
      .error refusal after) :
    perform agora contents ⟨.rollEpoch keyStore current epochSecret recordSize, faults⟩ =
      (.error refusal, contents) := by
  have hroll : rollEpoch agora keyStore current epochSecret recordSize ⟨contents, faults⟩ =
      .error refusal after ∧ after.held = contents := by
    unfold certifyEpoch at hcertify
    unfold rollEpoch
    rw [bind_eq_error] at hcertify ⊢
    rcases hcertify with hload | ⟨cursor, loaded, hload, hcertify⟩
    · exact ⟨.inl hload, FaultyStore.confined_empty.1 (moves_loadCursor.of_error hload)⟩
    obtain ⟨_, rfl, _⟩ := loadCursor_eq_ok.1 hload
    rw [expectOk_bind_eq_error] at hcertify
    rcases hcertify with ⟨hreach, rfl⟩ | ⟨_, hreach, hsign⟩
    · exact ⟨.inr ⟨cursor, _, hload, expectOk_bind_eq_error.2 (.inl ⟨hreach, rfl⟩)⟩, rfl⟩
    · obtain ⟨hrefused, rfl⟩ := expectOk_eq_error.1 hsign
      refine ⟨.inr ⟨cursor, _, hload, expectOk_bind_eq_error.2 (.inr ⟨_, hreach, ?_⟩)⟩, rfl⟩
      exact expectOk_bind_eq_error.2 (.inl ⟨hrefused, rfl⟩)
  rw [perform_eq_of_error (.rollEpoch keyStore current epochSecret recordSize) hroll.1, hroll.2]

-- A run loads matched pairs only, where no roll of it both loses its certificate and fails to take
-- its key back beside another key's certificate; and a roll refused by the time it has signed
-- changes nothing.
theorem loaded_pair_matches {start : Contents} (hblank : BlankEpochs agora start)
    (calls : List Call) :
    ((∀ happened ∈ events (perform agora) start calls, Happened.KeepsPair agora happened) →
      LoadsMatched agora (events (perform agora) start calls)
        (final (perform agora) start calls)) ∧
    ∀ contents keyStore current epochSecret recordSize faults refusal after,
      certifyEpoch agora keyStore current epochSecret recordSize ⟨contents, faults⟩ =
        .error refusal after →
      perform agora contents ⟨.rollEpoch keyStore current epochSecret recordSize, faults⟩ =
        (.error refusal, contents) := by
  constructor
  · intro hkeeps epoch rootPublicKeySize recordSize faults material after hload
    exact matched_of_load (paired_final hblank hkeeps) hload
  · intro contents keyStore current epochSecret recordSize faults refusal after hcertify
    exact perform_of_certifyEpoch_error hcertify

end AlongRuns

end Nymora.Protocol.Credential

namespace Nymora.Protocol.Credential.Pairing.Sample

open Nymora.Core
open Nymora.Crypto
open Nymora.Ports
open Runs
open Expiry.Sample
open Handover.Sample
open scoped Nymora.Crypto.Reference

def recertify (faults : List (Option ProtocolError)) : Call :=
  ⟨.rollEpoch keyStore three (Bytes.replicate 32 8) 112, faults⟩

-- The store of the new certificate fails, and so does the delete that takes the new key back.
def twiceFaulty : List Call :=
  [creation, rollTo three [],
    recertify [none, none, none, some .Unavailable, some .Unavailable]]

def mismatched (material : ActingMaterial) : Bool :=
  (Signature.publicKey material.epochKey.expose).map (·.toList) !=
    some material.epochRecord.publicKey

theorem recertified_key_beside_old_certificate :
    ¬ ∀ calls : List Call, LoadsMatched agora (events (perform agora) blank calls)
      (final (perform agora) blank calls) := by
  intro hclaim
  have hloads : (match loadActingMaterial agora three 32 112
      ⟨final (perform agora) blank twiceFaulty, []⟩ with
    | .ok material _ => mismatched material
    | .error _ _ => false) = true := by decide +kernel
  cases hload : loadActingMaterial agora three 32 112
      ⟨final (perform agora) blank twiceFaulty, []⟩ with
  | error refusal after =>
      rw [hload] at hloads
      cases hloads
  | ok material after =>
      rw [hload] at hloads
      obtain ⟨publicKey, hkey, hrecord, _⟩ := hclaim twiceFaulty three 32 112 [] material after hload
      simp [mismatched, hkey, hrecord] at hloads

-- One fault is not enough: the key whose certificate was not stored is taken back, and the next
-- roll certifies the epoch anew.
def onceFaulty : List Call :=
  [creation, rollTo three [], recertify [none, none, none, some .Unavailable], recertify []]

def shortRecord : Request := .rollEpoch keyStore three (Bytes.replicate 32 8) 47

theorem onceFaulty_starts : (match loadActingMaterial agora three 32 112
      ⟨final (perform agora) blank onceFaulty, []⟩ with
    | .ok _ _ => true
    | .error _ _ => false) = true ∧
    (match certifyEpoch agora keyStore three (Bytes.replicate 32 8) 47 ⟨blank, []⟩ with
      | .ok _ _ => none
      | .error refusal _ => some refusal) = some .Malformed := by
  decide +kernel

theorem onceFaulty_keepsPair : ∀ happened ∈ events (perform agora) blank onceFaulty,
    Happened.KeepsPair agora happened := by
  intro happened hmem keyStore current epochSecret recordSize cursor _ _ _ _ _ _ hfourth
  have hshort : happened.call.faults.length ≤ 4 := by
    simp only [onceFaulty, events_cons, events_nil, List.mem_cons, List.not_mem_nil,
      or_false] at hmem
    rcases hmem with rfl | rfl | rfl | rfl <;> decide
  exact absurd (List.getD_eq_default _ _ (by omega)) hfourth

theorem loaded_pair_matches_onceFaulty :
    (∃ material after, loadActingMaterial agora three 32 112
        ⟨final (perform agora) blank onceFaulty, []⟩ = .ok material after ∧
      Matched agora (events (perform agora) blank onceFaulty) three material) ∧
    perform agora blank ⟨shortRecord, []⟩ = (.error .Malformed, blank) := by
  obtain ⟨hloads, hrefused⟩ := onceFaulty_starts
  obtain ⟨hmatched, hunchanged⟩ := loaded_pair_matches blank_blankEpochs onceFaulty
  constructor
  · cases hload : loadActingMaterial agora three 32 112
        ⟨final (perform agora) blank onceFaulty, []⟩ with
    | error refusal after =>
        rw [hload] at hloads
        cases hloads
    | ok material after =>
        exact ⟨material, after, rfl, hmatched onceFaulty_keepsPair three 32 112 [] material after
          hload⟩
  · cases hcertify : certifyEpoch agora keyStore three (Bytes.replicate 32 8) 47 ⟨blank, []⟩ with
    | ok record after =>
        rw [hcertify] at hrefused
        cases hrefused
    | error refusal after =>
        rw [hcertify] at hrefused
        obtain rfl := Option.some.inj hrefused
        exact hunchanged _ _ _ _ _ _ _ _ hcertify

end Nymora.Protocol.Credential.Pairing.Sample
