import Nymora.Crypto.Reference
import Nymora.Protocol.Bulletin.Reading
import Nymora.Protocol.Operator.Envelope.Opening

namespace Nymora.Protocol

open Nymora.Core
open Nymora.Crypto
open Machine
open Codec

-- What the accessors and the iterators of a view return.
def BodyView.body (view : BodyView) : Operator.Body where
  epoch := view.epoch
  classRoots := view.classRoots
  revocationRoot := view.revocationRoot
  spendRoot := view.spendRoot
  revoked := view.revoked
  spent := view.spent
  tagKey := view.tagKey
  fetchKey := view.fetchKey

-- A plaintext sealed for one agora and epoch, the tag appended.
def sealedFor [Primitives] (key : Bytes 32) (agora : AgoraId) (epoch : Epoch)
    (plain : List UInt8) : List UInt8 :=
  let (ciphertext, tag) := Inbox.sealInPlace key (Inbox.associatedData agora epoch).toList plain
  ciphertext ++ tag.toList

namespace Operator.Body

variable {host : Host} {body : Body}

theorem body_view (body : Body) : body.view.body = body := by
  rw [BodyView.body, classRoots_view, revoked_view, spent_view]
  rfl

-- A view of whole tables is the view of what its accessors return.
theorem exists_view {epoch : Epoch} {view : BodyView} (hreads : view.Reads host epoch) :
    ∃ body : Body, body.view = view := by
  have hnamed : ∀ bytes : List UInt8, bytes.length = 2 * DIGEST_LEN →
      ∃ named : PolicyClass × Root, named.1.asBytes.toList ++ named.2.asBytes.toList = bytes := by
    intro bytes hlength
    have hfirst : (bytes.take DIGEST_LEN).length = DIGEST_LEN := by
      rw [List.length_take]
      omega
    have hsecond : (bytes.drop DIGEST_LEN).length = DIGEST_LEN := by
      rw [List.length_drop]
      omega
    exact ⟨(.fromBytes ⟨_, hfirst⟩, .fromBytes ⟨_, hsecond⟩), List.take_append_drop _ _⟩
  have hentry : ∀ bytes : List UInt8, bytes.length = DIGEST_LEN →
      ∃ entry : Bytes 32, entry.toList = bytes := fun bytes hlength => ⟨⟨bytes, hlength⟩, rfl⟩
  obtain ⟨classRoots, hclasses⟩ := exists_flatMap hnamed _ _ hreads.classes.length_eq
  obtain ⟨revoked, hrevoked⟩ := exists_flatMap hentry _ _ hreads.revoked.length_eq
  obtain ⟨spent, hspent⟩ := exists_flatMap hentry _ _ hreads.spent.length_eq
  refine ⟨{
    epoch := view.epoch, classRoots, revocationRoot := view.revocationRoot
    spendRoot := view.spendRoot, revoked, spent
    tagKey := view.tagKey, fetchKey := view.fetchKey }, ?_⟩
  rw [Body.view, classRootBytes, hclasses, hrevoked, hspent]

theorem view_body {epoch : Epoch} {view : BodyView} (hreads : view.Reads host epoch) :
    view.body.view = view := by
  obtain ⟨body, rfl⟩ := exists_view hreads
  rw [body_view]

-- The count written before a table is the count of its entries.
theorem toNat_entryCount_flatMap {α : Type} {encode : α → List UInt8} {width : Nat}
    (hpositive : 0 < width) (hwidth : ∀ value, (encode value).length = width) {values : List α}
    (htable : Table host width (values.flatMap encode)) :
    (entryCount width (values.flatMap encode)).toNat = values.length := by
  rw [htable.toNat_entryCount, length_flatMap_of_width hwidth, Nat.mul_div_cancel _ hpositive]

-- Where the tables can be addressed, the operator's layout is the one that is read.
theorem layout_view {epoch : Epoch} (hreads : body.view.Reads host epoch) :
    body.view.layout = body.encode := by
  have hclasses := toNat_entryCount_flatMap (by decide) length_named hreads.classes
  have hrevoked := toNat_entryCount_flatMap (by decide) Bytes.length_toList hreads.revoked
  have hspent := toNat_entryCount_flatMap (by decide) Bytes.length_toList hreads.spent
  have hepoch : LittleEndian.ofNat 8 body.epoch.u64.toNat = body.epoch.toLeBytes := by
    rw [Epoch.toNat_u64, Epoch.toLeBytes]
  rw [BodyView.layout]
  simp only [Body.view, classRootBytes, hclasses, hrevoked, hspent, hepoch, encode,
    List.append_assoc, List.append_nil]

theorem reads_view (hbounded : body.encode.length < host.limit) :
    body.view.Reads host body.epoch := by
  have htables : body.classRootBytes.length + (body.revoked.flatMap Bytes.toList).length +
      (body.spent.flatMap Bytes.toList).length ≤ body.encode.length := by
    simp only [encode, classRootBytes, List.length_append]
    omega
  have hwhole : ∀ {α : Type} {encode : α → List UInt8} {width : Nat},
      (∀ value, (encode value).length = width) → ∀ values : List α,
      width ∣ (values.flatMap encode).length := by
    intro α encode width hwidth values
    exact ⟨values.length, by rw [length_flatMap_of_width hwidth, Nat.mul_comm]⟩
  refine ⟨rfl, ⟨hwhole length_named body.classRoots, ?_⟩,
    ⟨hwhole Bytes.length_toList body.revoked, ?_⟩, ⟨hwhole Bytes.length_toList body.spent, ?_⟩⟩
  · exact Nat.lt_of_le_of_lt (show body.classRootBytes.length ≤ _ by omega) hbounded
  · exact Nat.lt_of_le_of_lt
      (show (body.revoked.flatMap Bytes.toList).length ≤ _ by omega) hbounded
  · exact Nat.lt_of_le_of_lt
      (show (body.spent.flatMap Bytes.toList).length ≤ _ by omega) hbounded

-- What the operator wrote is read as it was.
theorem decodeWith_encode (hbounded : body.encode.length < host.limit) :
    decodeWith (BodyView.readOn host body.epoch) body.encode = .ok body.view := by
  have hreads := reads_view hbounded
  exact (decodeWith_eq_ok (BodyView.parses_readOn host body.epoch)).2
    ⟨hreads, (layout_view hreads).symm⟩

-- What is read was written by the operator's code, or could have been.
theorem encode_of_decodeWith {epoch : Epoch} {plain : List UInt8} {view : BodyView}
    (hdecode : decodeWith (BodyView.readOn host epoch) plain = .ok view) :
    plain = view.body.encode ∧ view.epoch = epoch := by
  obtain ⟨hreads, rfl⟩ := (decodeWith_eq_ok (BodyView.parses_readOn host epoch)).1 hdecode
  have hview := view_body hreads
  have hlayout : view.body.view.layout = view.body.encode :=
    layout_view (by rw [hview]; exact hreads)
  exact ⟨by rw [← hlayout, hview], hreads.epoch_eq⟩

-- A layout opens with its epoch, so that it is read at no other.
theorem decodeWith_encode_of_ne {epoch : Epoch} (hepoch : epoch ≠ body.epoch) :
    decodeWith (BodyView.readOn host epoch) body.encode = .error (.Err .Malformed) := by
  rcases decodeWith_total (BodyView.parses_readOn host epoch) body.encode with
    hrefused | ⟨view, hview⟩
  · exact hrefused
  · obtain ⟨hplain, hsame⟩ := encode_of_decodeWith hview
    have hheads : body.epoch.toLeBytes = view.body.epoch.toLeBytes := by
      simp only [encode, List.append_assoc] at hplain
      exact List.append_inj_left hplain (by rw [Epoch.length_toLeBytes, Epoch.length_toLeBytes])
    have hbody : body.epoch = view.epoch := Epoch.toLeBytes_inj.1 hheads
    exact absurd (hbody.trans hsame).symm hepoch

end Operator.Body

section Format

variable [Primitives] {key : Bytes 32} {agora : AgoraId} {sealedAt epoch : Epoch}
  {plain opened : List UInt8}

theorem openSealed_sealedFor (hopens : Inbox.OpenAfterSeal) :
    openSealed key agora epoch (sealedFor key agora epoch plain) = .ok plain :=
  openSealed_seal hopens key agora epoch plain

-- Sealed at another epoch, a plaintext still opens to itself or to nothing.
theorem eq_of_openSealed_sealedFor (hopens : Inbox.OpenAfterSeal) (hone : Inbox.OneOpening)
    (hopened : openSealed key agora epoch (sealedFor key agora sealedAt plain) = .ok opened) :
    opened = plain := by
  have hsealed := hopens key (Inbox.associatedData agora sealedAt).toList plain
  simp only [sealedFor, Inbox.sealInPlace, openSealed_append, Inbox.openInPlace] at hopened
  split at hopened
  next read hread =>
      obtain rfl := Except.ok.inj hopened
      exact hone _ _ _ _ _ _ _ _ hsealed hread
  next => cases hopened

theorem BodyView.openOn_eq_ok {host : Host} {bodyKey : BodyKey} {buffer : List UInt8}
    {view : BodyView} : openOn host bodyKey agora epoch buffer = .ok view ↔
      ∃ plain, openSealed bodyKey.expose agora epoch buffer = .ok plain ∧
        decodeWith (readOn host epoch) plain = .ok view := by
  rw [openOn, openSealedOn_eq]
  cases openSealed bodyKey.expose agora epoch buffer with
  | error error => simp [lift, bind, Except.bind]
  | ok plain => simp [lift, bind, Except.bind]

theorem BodyView.openOn_total (host : Host) (bodyKey : BodyKey) (agora : AgoraId) (epoch : Epoch)
    (buffer : List UInt8) : openOn host bodyKey agora epoch buffer = .error (.Err .Malformed) ∨
      ∃ view, openOn host bodyKey agora epoch buffer = .ok view := by
  rw [openOn, openSealedOn_eq]
  rcases openSealed_total bodyKey.expose agora epoch buffer with hrefused | ⟨plain, hplain⟩
  · rw [hrefused]
    exact .inl rfl
  · rw [hplain]
    exact decodeWith_total (parses_readOn host epoch) plain

-- The operator's layout and the member's reading of it are one format, on every machine: what
-- was sealed is read back, at its own epoch only, and what is read is such a layout.
theorem body_layout_is_one_format (hopens : Inbox.OpenAfterSeal) (hone : Inbox.OneOpening)
    (host : Host) :
    (∀ (bodyKey : BodyKey) (agora : AgoraId) (body : Operator.Body),
      body.encode.length < host.limit →
      ∃ view, BodyView.openOn host bodyKey agora body.epoch
          (sealedFor bodyKey.expose agora body.epoch body.encode) = .ok view ∧
        view.body = body ∧
        ∀ policyClass, view.classRoot policyClass =
          (body.classRoots.find? fun named => named.1 = policyClass).map Prod.snd) ∧
    (∀ (bodyKey : BodyKey) (agora : AgoraId) (body : Operator.Body) (sealedAt epoch : Epoch),
      epoch ≠ body.epoch →
      BodyView.openOn host bodyKey agora epoch
        (sealedFor bodyKey.expose agora sealedAt body.encode) = .error (.Err .Malformed)) ∧
    (∀ (bodyKey : BodyKey) (agora : AgoraId) (epoch : Epoch) (buffer : List UInt8)
      (view : BodyView), BodyView.openOn host bodyKey agora epoch buffer = .ok view →
      openSealedOn bodyKey.expose agora epoch buffer = .ok view.body.encode ∧
        view.epoch = epoch) ∧
    (∀ (epoch : Epoch) (plain : List UInt8),
      decodeWith (BodyView.readOn host epoch) plain = .error (.Err .Malformed) ∨
        ∃ view, decodeWith (BodyView.readOn host epoch) plain = .ok view) ∧
    ∀ (bodyKey : BodyKey) (agora : AgoraId) (epoch : Epoch) (buffer : List UInt8),
      BodyView.openOn host bodyKey agora epoch buffer = .error (.Err .Malformed) ∨
        ∃ view, BodyView.openOn host bodyKey agora epoch buffer = .ok view := by
  refine ⟨?_, ?_, ?_, fun epoch => decodeWith_total (BodyView.parses_readOn host epoch),
    BodyView.openOn_total host⟩
  · intro bodyKey agora body hbounded
    refine ⟨body.view, BodyView.openOn_eq_ok.2 ⟨body.encode, openSealed_sealedFor hopens,
      Operator.Body.decodeWith_encode hbounded⟩, Operator.Body.body_view body, ?_⟩
    intro policyClass
    rw [BodyView.classRoot, Operator.Body.classRoots_view]
  · intro bodyKey agora body sealedAt epoch hepoch
    rcases BodyView.openOn_total host bodyKey agora epoch
        (sealedFor bodyKey.expose agora sealedAt body.encode) with hrefused | ⟨view, hview⟩
    · exact hrefused
    · obtain ⟨plain, hopened, hread⟩ := BodyView.openOn_eq_ok.1 hview
      obtain rfl := eq_of_openSealed_sealedFor hopens hone hopened
      rw [Operator.Body.decodeWith_encode_of_ne hepoch] at hread
      cases hread
  · intro bodyKey agora epoch buffer view hview
    obtain ⟨plain, hopened, hread⟩ := BodyView.openOn_eq_ok.1 hview
    obtain ⟨rfl, hepoch⟩ := Operator.Body.encode_of_decodeWith hread
    exact ⟨by rw [openSealedOn_eq, hopened]; rfl, hepoch⟩

end Format

namespace Sample

open scoped Nymora.Crypto.Reference

-- Two classes, one revoked leaf and two spends, at the last epoch.
def lastBody : Operator.Body where
  epoch := .new 0xffffffffffffffff
  classRoots := [(.fromBytes (Bytes.replicate 32 1), .fromBytes (Bytes.replicate 32 2)),
    (.fromBytes (Bytes.replicate 32 3), .fromBytes (Bytes.replicate 32 4))]
  revocationRoot := .fromBytes (Bytes.replicate 32 5)
  spendRoot := .fromBytes (Bytes.replicate 32 6)
  revoked := [Bytes.replicate 32 7]
  spent := [Bytes.replicate 32 8, Bytes.replicate 32 9]
  tagKey := .new (Bytes.replicate 32 10)
  fetchKey := .new (Bytes.replicate 32 11)

theorem last_body_is_read_back :
    (∃ view, BodyView.openOn ⟨.W32, true⟩ (.new (Bytes.zero 32)) (.fromBytes (Bytes.zero 32))
        lastBody.epoch (sealedFor (Bytes.zero 32) (.fromBytes (Bytes.zero 32)) lastBody.epoch
          lastBody.encode) = .ok view ∧ view.body = lastBody) ∧
    BodyView.openOn ⟨.W32, true⟩ (.new (Bytes.zero 32)) (.fromBytes (Bytes.zero 32)) ⟨0, by decide⟩
      (sealedFor (Bytes.zero 32) (.fromBytes (Bytes.zero 32)) lastBody.epoch lastBody.encode) =
      .error (.Err .Malformed) := by
  obtain ⟨hreads, hother, _⟩ := body_layout_is_one_format Crypto.Reference.openAfterSeal
    Crypto.Reference.oneOpening ⟨.W32, true⟩
  obtain ⟨view, hview, hbody, _⟩ := hreads (.new (Bytes.zero 32)) (.fromBytes (Bytes.zero 32))
    lastBody (by decide +kernel)
  exact ⟨⟨view, hview, hbody⟩, hother _ _ _ _ _ (by decide +kernel)⟩

end Sample

end Nymora.Protocol
