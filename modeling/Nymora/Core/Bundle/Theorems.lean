import Nymora.Core.Bundle

namespace Nymora.Core.Bundle

open Machine
open Codec
open Wire

variable {host : Host}

-- The bytes of an encoding, field by field.
def layout (bundle : Bundle) : List UInt8 :=
  [FORMAT_VERSION] ++ (Framing.frame LENGTH_PREFIX bundle.content ++
    (bundle.tag.asBytes.toList ++ (Framing.frame LENGTH_PREFIX bundle.attestation.proof ++
      (bundle.attestation.messageHash.asBytes.toList ++
        (bundle.attestation.nullifier.asBytes.toList ++ [])))))

theorem length_layout (bundle : Bundle) : bundle.layout.length = bundle.encodedLen := by
  simp only [layout, encodedLen, List.length_append, List.length_singleton, Framing.length_frame,
    Bytes.length_toList, List.length_nil, DIGEST_LEN, LENGTH_PREFIX]
  omega

theorem parses_read (host : Host) : Parses .Malformed (read host) layout
    (fun bundle => bundle.content.length < host.limit ∧
      bundle.attestation.proof.length < host.limit) (· = []) := by
  refine Parses.bind (fun _ : Bundle => FORMAT_VERSION) parses_splitFirst (fun _ _ => trivial) ?_
  intro version _
  by_cases hversion : version = FORMAT_VERSION
  · rw [if_neg (not_not.2 hversion)]
    refine Parses.bind content (parses_takeFramed host) (fun _ hvalid => hvalid.1.1) ?_
    intro content hcontent
    refine Parses.bind (fun bundle : Bundle => bundle.tag.asBytes) parses_takeDigest
      (fun _ _ => trivial) ?_
    intro tag _
    refine Parses.bind (fun bundle : Bundle => bundle.attestation.proof) (parses_takeFramed host)
      (fun _ hvalid => hvalid.1.1.1.2) ?_
    intro proof hproof
    refine Parses.bind (fun bundle : Bundle => bundle.attestation.messageHash.asBytes) parses_takeDigest
      (fun _ _ => trivial) ?_
    intro messageHash _
    refine Parses.bind (fun bundle : Bundle => bundle.attestation.nullifier.asBytes) parses_takeDigest
      (fun _ _ => trivial) ?_
    intro nullifier _
    refine parses_finish fun bundle rest => ?_
    constructor
    · rintro ⟨rfl, hend⟩
      exact ⟨⟨⟨⟨⟨⟨⟨⟨hcontent, hproof⟩, hversion.symm⟩, rfl⟩, rfl⟩, rfl⟩, rfl⟩, rfl⟩, not_not.1 hend⟩
    · rintro ⟨⟨⟨⟨⟨⟨_, rfl⟩, rfl⟩, rfl⟩, rfl⟩, rfl⟩, rfl⟩
      exact ⟨rfl, not_not.2 rfl⟩
  · rw [if_pos hversion]
    exact parses_refusal (fun _ => rfl) fun _ hvalid => hversion hvalid.2.symm

theorem writes_write (host : Host) (bundle : Bundle) :
    Writes host (bundle.write host) bundle.layout := by
  have hwrites : Writes host (bundle.write host)
      ([FORMAT_VERSION] ++ (LittleEndian.ofNat 8 bundle.content.length ++ (bundle.content ++
        (bundle.tag.asBytes.toList ++
          (LittleEndian.ofNat 8 bundle.attestation.proof.length ++
            (bundle.attestation.proof ++ (bundle.attestation.messageHash.asBytes.toList ++
              bundle.attestation.nullifier.asBytes.toList))))))) := by
    refine (writes_put _).append ((writes_put _).append ((writes_put _).append ?_))
    refine (writes_put _).append ((writes_put _).append ((writes_put _).append ?_))
    exact (writes_put _).append (writes_put _)
  simpa only [layout, Framing.frame, LENGTH_PREFIX, List.append_assoc, List.append_nil] using hwrites

theorem encodedLenOn_eq (bundle : Bundle) (hfits : bundle.encodedLen < host.limit) :
    bundle.encodedLenOn host = .ok bundle.encodedLen := by
  have hterms : [1, LENGTH_PREFIX, bundle.content.length, DIGEST_LEN, LENGTH_PREFIX,
      bundle.attestation.proof.length, DIGEST_LEN, DIGEST_LEN].sum = bundle.encodedLen := by
    simp only [encodedLen, List.sum_cons, List.sum_nil]
    omega
  rw [encodedLenOn, ← hterms]
  exact Host.sum_eq_ok (by rwa [hterms])

-- Strict both ways: one encoding a bundle, one bundle an encoding.
theorem canonical (host : Host) : Canonical host ProtocolError.Malformed encodedLen (encode host)
    (decode host) fun _ => True := by
  refine canonical_of_layout (parses_read host) (writes_write host) length_layout
    (fun bundle => encodedLenOn_eq bundle) ?_ fun _ _ => trivial
  intro bundle hfits
  have hcontent : bundle.content.length < host.limit := by
    unfold encodedLen at hfits
    omega
  have hproof : bundle.attestation.proof.length < host.limit := by
    unfold encodedLen at hfits
    omega
  exact iff_true_intro ⟨hcontent, hproof⟩

end Nymora.Core.Bundle
