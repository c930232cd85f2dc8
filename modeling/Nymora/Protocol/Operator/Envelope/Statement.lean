import Nymora.Crypto.Kdf.Theorems
import Nymora.Crypto.Reference
import Nymora.Protocol.Operator.Envelope.Theorems

namespace Nymora.Protocol

open Nymora.Core
open Nymora.Crypto

-- What the digest of a ciphertext list hashes.
def ciphertextsStream (ciphertexts : List (InboxTag × List UInt8)) : List UInt8 :=
  (Domain.EnvelopeCiphertexts.tagBytes :: LittleEndian.ofNat 8 ciphertexts.length ::
    ciphertexts.flatMap fun named => [named.1.asBytes.toList, named.2]).flatMap framed

-- The optional tail of a statement, with the byte that says whether it is there.
def headParts : Option EmbeddedHead → List (List UInt8)
  | none => [[0]]
  | some head =>
      [[1], LittleEndian.ofNat 8 head.sequence, head.head.toList, head.signature.toList]

namespace EnvelopeStatement

def stream (statement : EnvelopeStatement) : List UInt8 :=
  (Domain.Bulletin.tagBytes :: statement.agora.asBytes.toList :: statement.epoch.toLeBytes ::
    statement.ephemeralKey.asBytes.toList :: statement.body ::
      statement.ciphertextsDigest.toList :: headParts statement.head).flatMap framed

theorem digest_eq [Primitives] (statement : EnvelopeStatement) :
    statement.digest = Primitives.sha256 statement.stream := by
  have happend : ∀ (hasher : ByteHasher) (bytes : List UInt8),
      (hasher.absorb bytes).finalize = Primitives.sha256 (hasher.stream ++ framed bytes) :=
    fun _ _ => rfl
  unfold digest stream
  cases statement.head <;>
    simp only [happend, headParts, ByteHasher.stream_absorb, ByteHasher.new, List.flatMap_cons,
      List.flatMap_nil, List.append_nil, List.append_assoc]

end EnvelopeStatement

theorem ciphertextsDigest_eq [Primitives] (ciphertexts : List (InboxTag × List UInt8)) :
    ciphertextsDigest ciphertexts = Primitives.sha256 (ciphertextsStream ciphertexts) := by
  have hfold : ∀ (hasher : ByteHasher), (ciphertexts.foldl (fun hasher named =>
      (hasher.absorb named.1.asBytes.toList).absorb named.2) hasher).stream = hasher.stream ++
      (ciphertexts.flatMap fun named => [named.1.asBytes.toList, named.2]).flatMap framed := by
    induction ciphertexts with
    | nil => simp
    | cons named ciphertexts ih =>
        intro hasher
        rw [List.foldl_cons, ih]
        simp
  refine congrArg Primitives.sha256 ((hfold _).trans ?_)
  rw [ciphertextsStream, List.flatMap_cons, List.flatMap_cons, ByteHasher.stream_absorb,
    ByteHasher.new, List.append_assoc]

-- The tags and the ciphertexts alternate, so that the parts are those of one list only.
theorem flatMap_named_inj {ciphertexts others : List (InboxTag × List UInt8)}
    (hparts : (ciphertexts.flatMap fun named => [named.1.asBytes.toList, named.2]) =
      others.flatMap fun named => [named.1.asBytes.toList, named.2]) : ciphertexts = others := by
  induction ciphertexts generalizing others with
  | nil =>
      cases others with
      | nil => rfl
      | cons named others => cases hparts
  | cons named ciphertexts ih =>
      cases others with
      | nil => cases hparts
      | cons other others =>
          rw [List.flatMap_cons, List.flatMap_cons] at hparts
          obtain ⟨htag, hlater⟩ := List.cons.inj hparts
          obtain ⟨hbytes, hrest⟩ := List.cons.inj hlater
          obtain ⟨⟨tag⟩, bytes⟩ := named
          obtain ⟨⟨otherTag⟩, otherBytes⟩ := other
          obtain rfl : tag = otherTag := Bytes.toList_inj.1 htag
          obtain rfl : bytes = otherBytes := hbytes
          rw [ih hrest]

theorem headParts_inj {head other : Option EmbeddedHead}
    (hhead : ∀ held ∈ head, held.sequence < 2 ^ 64)
    (hother : ∀ held ∈ other, held.sequence < 2 ^ 64) (hparts : headParts head = headParts other) :
    head = other := by
  cases head with
  | none =>
      cases other with
      | none => rfl
      | some other => simp [headParts] at hparts
  | some head =>
      cases other with
      | none => simp [headParts] at hparts
      | some other =>
          simp only [headParts, List.cons.injEq, and_true, true_and, Bytes.toList_inj] at hparts
          obtain ⟨hsequence, hdigest, hsignature⟩ := hparts
          rw [LittleEndian.ofNat_inj (hhead head rfl) (hother other rfl)] at hsequence
          cases head
          cases other
          simp only at hsequence hdigest hsignature
          rw [hsequence, hdigest, hsignature]

namespace Operator.Envelope

-- The lengths and the sequence number are 64-bit, as their types are.
structure Addressed (envelope : Envelope) : Prop where
  body : envelope.body.length < 2 ^ 64
  ciphertexts : ∀ ciphertext ∈ envelope.ciphertexts, ciphertext.bytes.length < 2 ^ 64
  head : ∀ head ∈ envelope.head, head.sequence < 2 ^ 64

def named (envelope : Envelope) : List (InboxTag × List UInt8) :=
  envelope.ciphertexts.map fun ciphertext => (ciphertext.tag, ciphertext.bytes)

theorem named_inj {envelope other : Envelope} (hnamed : envelope.named = other.named) :
    envelope.ciphertexts = other.ciphertexts := by
  refine List.map_injective_iff.2 ?_ hnamed
  rintro ⟨tag, bytes⟩ ⟨otherTag, otherBytes⟩ hpair
  obtain ⟨rfl, rfl⟩ := Prod.mk.inj hpair
  rfl

theorem Addressed.fits_list {envelope : Envelope} (haddressed : Addressed envelope) :
    ∀ part ∈ Domain.EnvelopeCiphertexts.tagBytes ::
      LittleEndian.ofNat 8 envelope.named.length ::
        envelope.named.flatMap fun named => [named.1.asBytes.toList, named.2],
      Framing.Fits 8 part := by
  refine List.forall_mem_cons.2 ⟨Kdf.fits_tagBytes _, List.forall_mem_cons.2 ⟨?_, ?_⟩⟩
  · simp [Framing.Fits]
  · intro part hpart
    obtain ⟨pair, hpair, hpart⟩ := List.mem_flatMap.1 hpart
    obtain ⟨ciphertext, hciphertext, rfl⟩ := List.mem_map.1 hpair
    rcases List.mem_cons.1 hpart with rfl | hbytes
    · simp [Framing.Fits]
    · rw [List.mem_singleton.1 hbytes]
      exact haddressed.ciphertexts ciphertext hciphertext

variable [Primitives]

theorem Addressed.fits_statement {envelope : Envelope} (haddressed : Addressed envelope)
    (agora : AgoraId) :
    ∀ part ∈ Domain.Bulletin.tagBytes :: agora.asBytes.toList :: envelope.epoch.toLeBytes ::
      envelope.ephemeralKey.asBytes.toList :: envelope.body ::
        envelope.ciphertextsDigest.toList :: headParts envelope.head, Framing.Fits 8 part := by
  have hdigest : ∀ {width : Nat} (bytes : Bytes width), width < 256 ^ 8 →
      Framing.Fits 8 bytes.toList := by
    intro width bytes hwidth
    rwa [Framing.Fits, bytes.length_toList]
  refine List.forall_mem_cons.2 ⟨Kdf.fits_tagBytes _, List.forall_mem_cons.2 ⟨?_,
    List.forall_mem_cons.2 ⟨?_, List.forall_mem_cons.2 ⟨?_, List.forall_mem_cons.2 ⟨?_,
      List.forall_mem_cons.2 ⟨?_, ?_⟩⟩⟩⟩⟩⟩
  · exact hdigest _ (by decide)
  · simp [Framing.Fits]
  · exact hdigest _ (by decide)
  · exact haddressed.body
  · exact hdigest _ (by decide)
  · cases envelope.head <;> simp [headParts, Framing.Fits]

-- Everything hashed for the digest of an envelope's statement.
def statementStreams (envelope : Envelope) (agora : AgoraId) : List (List UInt8) :=
  [ciphertextsStream envelope.named, (envelope.statement agora).stream]

theorem ciphertexts_eq_of_digest_eq {envelope other : Envelope} (haddressed : Addressed envelope)
    (hother : Addressed other)
    (hfree : ByteHasher.CollisionFree
      [ciphertextsStream envelope.named, ciphertextsStream other.named])
    (hdigest : envelope.ciphertextsDigest = other.ciphertextsDigest) :
    envelope.ciphertexts = other.ciphertexts := by
  have hlists : Protocol.ciphertextsDigest envelope.named =
      Protocol.ciphertextsDigest other.named := hdigest
  rw [ciphertextsDigest_eq, ciphertextsDigest_eq] at hlists
  have hstream := hfree _ (by simp) _ (by simp) hlists
  have hparts := framed_inj haddressed.fits_list hother.fits_list hstream
  exact named_inj (flatMap_named_inj (List.cons.inj (List.cons.inj hparts).2).2)

-- The two levels of the digest are read back from the outside in.
theorem statement_digest_inj {envelope other : Envelope} {agora otherAgora : AgoraId}
    (haddressed : Addressed envelope) (hother : Addressed other)
    (hfree : ByteHasher.CollisionFree
      (envelope.statementStreams agora ++ other.statementStreams otherAgora))
    (hdigest : (envelope.statement agora).digest = (other.statement otherAgora).digest) :
    agora = otherAgora ∧ envelope.epoch = other.epoch ∧
      envelope.ephemeralKey = other.ephemeralKey ∧ envelope.body = other.body ∧
      envelope.ciphertexts = other.ciphertexts ∧ envelope.head = other.head := by
  rw [EnvelopeStatement.digest_eq, EnvelopeStatement.digest_eq] at hdigest
  have hstream := hfree _ (by simp [statementStreams]) _ (by simp [statementStreams]) hdigest
  have hparts := framed_inj (haddressed.fits_statement agora) (hother.fits_statement otherAgora)
    hstream
  simp only [List.cons.injEq, true_and, Bytes.toList_inj, Digest.asBytes_inj,
    Epoch.toLeBytes_inj] at hparts
  obtain ⟨hagora, hepoch, hkey, hbody, hlist, hhead⟩ := hparts
  have hlists : ByteHasher.CollisionFree
      [ciphertextsStream envelope.named, ciphertextsStream other.named] :=
    hfree.mono (by simp [statementStreams])
  exact ⟨hagora, hepoch, hkey, hbody, ciphertexts_eq_of_digest_eq haddressed hother hlists hlist,
    headParts_inj haddressed.head hother.head hhead⟩

end Operator.Envelope

-- An accepted envelope is newer than the last, and it is this digest that its signature is of.
theorem acceptEnvelope_eq_ok [Primitives] {statementKey signature : List UInt8}
    {statement : EnvelopeStatement} {current : Option Epoch} :
    acceptEnvelope statementKey statement signature current = .ok () ↔
      (∀ last ∈ current, last.get < statement.epoch.get) ∧
        Signature.verify statementKey (Field.fromId statement.digest) signature = true := by
  unfold acceptEnvelope
  by_cases hstale : current.any fun current => statement.epoch.get ≤ current.get
  · rw [if_pos hstale]
    simp only [Option.any_eq_true, decide_eq_true_eq] at hstale
    obtain ⟨last, hlast, hle⟩ := hstale
    constructor
    · intro haccepted
      cases haccepted
    · rintro ⟨hnewer, _⟩
      have hlt := hnewer last hlast
      omega
  · rw [if_neg hstale]
    simp only [Option.any_eq_true, decide_eq_true_eq, not_exists, not_and] at hstale
    have hnewer : ∀ last ∈ current, last.get < statement.epoch.get :=
      fun last hlast => Nat.lt_of_not_le (hstale last hlast)
    by_cases hsigned : Signature.verify statementKey (Field.fromId statement.digest) signature = true
    · simpa [hsigned, pure, Except.pure] using hnewer
    · simp [hsigned, throw, throwThe, MonadExceptOf.throw, bind, Except.bind]

-- The digest that acceptance checks is injective in the agora and in everything an envelope
-- carries but the signature itself, the whole ciphertext list and the head included.
theorem statement_digest_covers_everything [Primitives] {envelope other : Operator.Envelope}
    {agora otherAgora : AgoraId} (haddressed : envelope.Addressed) (hother : other.Addressed)
    (hfree : ByteHasher.CollisionFree
      (envelope.statementStreams agora ++ other.statementStreams otherAgora)) :
    ((envelope.statement agora).digest = (other.statement otherAgora).digest ↔
      agora = otherAgora ∧ envelope.epoch = other.epoch ∧
        envelope.ephemeralKey = other.ephemeralKey ∧ envelope.body = other.body ∧
        envelope.ciphertexts = other.ciphertexts ∧ envelope.head = other.head) ∧
    ∀ (statementKey signature : List UInt8) (current : Option Epoch),
      acceptEnvelope statementKey (envelope.statement agora) signature current = .ok () ↔
        (∀ last ∈ current, last.get < envelope.epoch.get) ∧
          Signature.verify statementKey (Field.fromId (envelope.statement agora).digest)
            signature = true := by
  refine ⟨⟨Operator.Envelope.statement_digest_inj haddressed hother hfree, ?_⟩,
    fun _ _ _ => acceptEnvelope_eq_ok⟩
  rintro ⟨rfl, hepoch, hkey, hbody, hciphertexts, hhead⟩
  rw [Operator.Envelope.statement, Operator.Envelope.statement,
    Operator.Envelope.ciphertextsDigest, Operator.Envelope.ciphertextsDigest, hepoch, hkey, hbody,
    hciphertexts, hhead]

end Nymora.Protocol

namespace Nymora.Protocol.Operator.Envelope.Sample

open Nymora.Core
open Nymora.Crypto
open scoped Nymora.Crypto.Reference

-- Two ciphertexts, and a byte moved from the second to the first.
def delivered (first second : List UInt8) : Envelope where
  epoch := .new 7
  ephemeralKey := .fromBytes (Bytes.zero 32)
  body := [1, 2, 3]
  ciphertexts := [⟨.fromBytes (Bytes.zero 8), first⟩, ⟨.fromBytes (Bytes.zero 8), second⟩]
  head := none
  signature := Bytes.zero 64

theorem addressed_delivered {first second : List UInt8} (hfirst : first.length < 2 ^ 64)
    (hsecond : second.length < 2 ^ 64) : (delivered first second).Addressed where
  body := by simp [delivered]
  ciphertexts ciphertext hciphertext := by
    simp only [delivered, List.mem_cons, List.not_mem_nil, or_false] at hciphertext
    rcases hciphertext with rfl | rfl
    · exact hfirst
    · exact hsecond
  head := by simp [delivered]

theorem a_moved_byte_changes_the_digest :
    ((delivered [4] [5, 6]).statement (.fromBytes (Bytes.zero 32))).digest ≠
      ((delivered [4, 5] [6]).statement (.fromBytes (Bytes.zero 32))).digest := by
  intro hdigest
  obtain ⟨_, _, _, _, hciphertexts, _⟩ := (statement_digest_covers_everything
    (addressed_delivered (by decide) (by decide)) (addressed_delivered (by decide) (by decide))
    (by decide +kernel)).1.1 hdigest
  exact absurd hciphertexts (by decide)

end Nymora.Protocol.Operator.Envelope.Sample
