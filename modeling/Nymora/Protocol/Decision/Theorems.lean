import Nymora.Crypto.Kdf.Theorems
import Nymora.Protocol.Decision

namespace Nymora.Protocol

open Nymora.Core
open Nymora.Crypto

namespace Decision

def content : Decision → List (List UInt8)
  | .Policy policyClass admissionThreshold governanceQuorum =>
      [policyClass.asBytes.toList, LittleEndian.ofNat 4 admissionThreshold.toNat,
        LittleEndian.ofNat 4 governanceQuorum.toNat]
  | .Revocation leaf => [leaf.asBytes.toList]
  | .Dissolution => []
  | .InboxHorizon boundaries => [LittleEndian.ofNat 8 boundaries.toNat]

theorem stream_absorbContent (decision : Decision) (hasher : ByteHasher) :
    (decision.absorbContent hasher).stream = hasher.stream ++ decision.content.flatMap framed := by
  cases decision <;> simp [absorbContent, content]

theorem fits_content (decision : Decision) : ∀ part ∈ decision.content, Framing.Fits 8 part := by
  cases decision <;> simp [content, Framing.Fits]

def kinds : List Domain :=
  [.ProposalPolicy, .ProposalRevocation, .ProposalDissolution, .ProposalHorizon]

-- The kinds' tags are apart.
theorem domain_eq_of_tagBytes {decision other : Decision}
    (htags : decision.domain.tagBytes = other.domain.tagBytes) :
    decision.domain = other.domain := by
  have happart : ∀ kind ∈ kinds, ∀ later ∈ kinds, kind.tagBytes = later.tagBytes → kind = later := by
    decide +kernel
  have hkind : ∀ decision : Decision, decision.domain ∈ kinds := by
    intro decision
    cases decision <;> simp [domain, kinds]
  exact happart _ (hkind decision) _ (hkind other) htags

-- The contents of two kinds may coincide, and one may be the start of another. The kind is told
-- by the tag alone, and within a kind the fields are as many and as wide.
theorem eq_of_content {decision other : Decision} {nonce later : Bytes 32}
    (htags : decision.domain.tagBytes = other.domain.tagBytes)
    (hcontent : decision.content ++ [nonce.toList] = other.content ++ [later.toList]) :
    decision = other ∧ nonce = later := by
  have hkind := domain_eq_of_tagBytes htags
  cases decision with
  | Policy policyClass admissionThreshold governanceQuorum =>
      cases other with
      | Policy otherClass otherThreshold otherQuorum =>
          simp only [content, List.cons_append, List.nil_append, List.cons.injEq, and_true,
            Bytes.toList_inj, Digest.asBytes_inj] at hcontent
          obtain ⟨rfl, hthreshold, hquorum, rfl⟩ := hcontent
          rw [LittleEndian.ofNat_inj (UInt32.toNat_lt _) (UInt32.toNat_lt _),
            UInt32.toNat_inj] at hthreshold hquorum
          rw [hthreshold, hquorum]
          exact ⟨rfl, rfl⟩
      | _ => cases hkind
  | Revocation leaf =>
      cases other with
      | Revocation otherLeaf =>
          simp only [content, List.cons_append, List.nil_append, List.cons.injEq, and_true,
            Bytes.toList_inj, Digest.asBytes_inj] at hcontent
          obtain ⟨rfl, rfl⟩ := hcontent
          exact ⟨rfl, rfl⟩
      | _ => cases hkind
  | Dissolution =>
      cases other with
      | Dissolution =>
          simp only [content, List.nil_append, List.cons.injEq, and_true, Bytes.toList_inj]
            at hcontent
          exact ⟨rfl, hcontent⟩
      | _ => cases hkind
  | InboxHorizon boundaries =>
      cases other with
      | InboxHorizon otherBoundaries =>
          simp only [content, List.cons_append, List.nil_append, List.cons.injEq, and_true,
            Bytes.toList_inj] at hcontent
          obtain ⟨hboundaries, rfl⟩ := hcontent
          rw [LittleEndian.ofNat_inj (UInt64.toNat_lt _) (UInt64.toNat_lt _),
            UInt64.toNat_inj] at hboundaries
          rw [hboundaries]
          exact ⟨rfl, rfl⟩
      | _ => cases hkind

end Decision

-- What a subject identifier hashes.
def subjectStream (agora : AgoraId) (opened : Epoch) (approvingClass : PolicyClass)
    (decision : Decision) (nonce : Bytes 32) : List UInt8 :=
  (decision.domain.tagBytes :: agora.asBytes.toList :: opened.toLeBytes ::
    approvingClass.asBytes.toList :: (decision.content ++ [nonce.toList])).flatMap framed

variable [Primitives] {agora other : AgoraId} {opened later : Epoch}
  {approvingClass otherClass : PolicyClass} {decision otherDecision : Decision}
  {nonce otherNonce : Bytes 32}

theorem subjectId_eq : (subjectId agora opened approvingClass decision nonce).asBytes =
    Primitives.sha256 (subjectStream agora opened approvingClass decision nonce) := by
  have hstream : ((decision.absorbContent ((((ByteHasher.new decision.domain).absorb
      agora.asBytes.toList).absorb opened.toLeBytes).absorb
      approvingClass.asBytes.toList)).absorb nonce.toList).stream =
      subjectStream agora opened approvingClass decision nonce := by
    simp only [ByteHasher.stream_absorb, Decision.stream_absorbContent, ByteHasher.new,
      subjectStream, List.flatMap_cons, List.flatMap_append, List.flatMap_nil, List.append_nil,
      List.append_assoc]
  exact congrArg Primitives.sha256 hstream

-- The frames of a subject are read back one by one.
theorem subjectId_inj
    (hfree : ByteHasher.CollisionFree [subjectStream agora opened approvingClass decision nonce,
      subjectStream other later otherClass otherDecision otherNonce])
    (hsubject : subjectId agora opened approvingClass decision nonce =
      subjectId other later otherClass otherDecision otherNonce) :
    agora = other ∧ opened = later ∧ approvingClass = otherClass ∧ decision = otherDecision ∧
      nonce = otherNonce := by
  have hbytes := congrArg Digest.asBytes hsubject
  rw [subjectId_eq, subjectId_eq] at hbytes
  have hstream := hfree _ (by simp) _ (by simp) hbytes
  have hfits : ∀ (agora : AgoraId) (opened : Epoch) (approvingClass : PolicyClass)
      (decision : Decision) (nonce : Bytes 32), ∀ part ∈ decision.domain.tagBytes ::
        agora.asBytes.toList :: opened.toLeBytes :: approvingClass.asBytes.toList ::
          (decision.content ++ [nonce.toList]), Framing.Fits 8 part := by
    intro agora opened approvingClass decision nonce
    refine List.forall_mem_cons.2 ⟨Kdf.fits_tagBytes _, List.forall_mem_cons.2 ⟨?_,
      List.forall_mem_cons.2 ⟨?_, List.forall_mem_cons.2 ⟨?_, ?_⟩⟩⟩⟩
    · simp [Framing.Fits]
    · simp [Framing.Fits]
    · simp [Framing.Fits]
    · intro part hpart
      rcases List.mem_append.1 hpart with hcontent | hnonce
      · exact decision.fits_content part hcontent
      · rw [List.mem_singleton.1 hnonce]
        simp [Framing.Fits]
  have hparts := framed_inj (hfits _ _ _ _ _) (hfits _ _ _ _ _) hstream
  simp only [List.cons.injEq, Bytes.toList_inj, Digest.asBytes_inj, Epoch.toLeBytes_inj]
    at hparts
  obtain ⟨htags, hagora, hopened, hclass, hcontent⟩ := hparts
  exact ⟨hagora, hopened, hclass, Decision.eq_of_content htags hcontent⟩

end Nymora.Protocol
