import Nymora.Core.Bundle.Theorems
import Nymora.Core.Handoff

namespace Nymora.Core

open Machine
open Codec

namespace MigrationHandoff

open Wire (parses_takeDigest parses_takeFramed)

variable {host : Host}

-- The bytes of an encoding, field by field.
def layout (handoff : MigrationHandoff) : List UInt8 :=
  [HANDOFF_VERSION] ++ (handoff.agora.asBytes.toList ++
    (handoff.credentialKey.expose.toList ++ (handoff.rootOpening.expose.toList ++
      (Framing.frame LENGTH_PREFIX handoff.rootPublicKey ++
        (Framing.frame LENGTH_PREFIX handoff.migrationCert ++
          (Framing.frame LENGTH_PREFIX handoff.retireCert ++ []))))))

theorem length_layout (handoff : MigrationHandoff) :
    handoff.layout.length = handoff.encodedLen := by
  simp only [layout, encodedLen, List.length_append, List.length_singleton, Framing.length_frame,
    Bytes.length_toList, List.length_nil, DIGEST_LEN, LENGTH_PREFIX]
  omega

-- What the migration writes on the old device is this layout.
theorem encode_eq_layout {handoff : MigrationHandoff} {out : Nat}
    (hfits : handoff.encodedLen ≤ out) : handoff.encode out = .ok handoff.layout := by
  rw [encode, if_pos hfits]
  simp only [layout, List.append_assoc, List.append_nil]

theorem parses_read (host : Host) : Parses .Malformed (read host) layout
    (fun handoff => handoff.rootPublicKey.length < host.limit ∧
      handoff.migrationCert.length < host.limit ∧ handoff.retireCert.length < host.limit)
    (· = []) := by
  refine Parses.bind (fun _ : MigrationHandoff => HANDOFF_VERSION) parses_splitFirst
    (fun _ _ => trivial) ?_
  intro version _
  by_cases hversion : version = HANDOFF_VERSION
  · rw [if_neg (not_not.2 hversion)]
    refine Parses.bind (fun handoff : MigrationHandoff => handoff.agora.asBytes)
      parses_takeDigest (fun _ _ => trivial) ?_
    intro agora _
    refine Parses.bind (fun handoff : MigrationHandoff => handoff.credentialKey.expose)
      parses_takeDigest (fun _ _ => trivial) ?_
    intro credentialKey _
    refine Parses.bind (fun handoff : MigrationHandoff => handoff.rootOpening.expose)
      parses_takeDigest (fun _ _ => trivial) ?_
    intro rootOpening _
    refine Parses.bind rootPublicKey (parses_takeFramed host)
      (fun _ hvalid => hvalid.1.1.1.1.1) ?_
    intro rootPublicKey hroot
    refine Parses.bind migrationCert (parses_takeFramed host)
      (fun _ hvalid => hvalid.1.1.1.1.1.2.1) ?_
    intro migrationCert hmigration
    refine Parses.bind retireCert (parses_takeFramed host)
      (fun _ hvalid => hvalid.1.1.1.1.1.1.2.2) ?_
    intro retireCert hretire
    refine parses_finish fun handoff rest => ?_
    constructor
    · rintro ⟨rfl, hend⟩
      exact ⟨⟨⟨⟨⟨⟨⟨⟨⟨hroot, hmigration, hretire⟩, hversion.symm⟩, rfl⟩, rfl⟩, rfl⟩, rfl⟩, rfl⟩,
        rfl⟩, not_not.1 hend⟩
    · rintro ⟨⟨⟨⟨⟨⟨⟨_, rfl⟩, rfl⟩, rfl⟩, rfl⟩, rfl⟩, rfl⟩, rfl⟩
      exact ⟨rfl, not_not.2 rfl⟩
  · rw [if_pos hversion]
    exact parses_refusal (fun _ => rfl) fun _ hvalid => hversion hvalid.2.symm

theorem writes_write (host : Host) (handoff : MigrationHandoff) :
    Writes host (handoff.write host) handoff.layout := by
  have hwrites : Writes host (handoff.write host)
      ([HANDOFF_VERSION] ++ (handoff.agora.asBytes.toList ++
        (handoff.credentialKey.expose.toList ++ (handoff.rootOpening.expose.toList ++
          (LittleEndian.ofNat 8 handoff.rootPublicKey.length ++ (handoff.rootPublicKey ++
            (LittleEndian.ofNat 8 handoff.migrationCert.length ++ (handoff.migrationCert ++
              (LittleEndian.ofNat 8 handoff.retireCert.length ++ handoff.retireCert))))))))) := by
    refine (writes_put _).append ((writes_put _).append ((writes_put _).append ?_))
    refine (writes_put _).append ((writes_put _).append ((writes_put _).append ?_))
    refine (writes_put _).append ((writes_put _).append ?_)
    exact (writes_put _).append (writes_put _)
  simpa only [layout, Framing.frame, LENGTH_PREFIX, List.append_assoc, List.append_nil] using hwrites

theorem encodedLenOn_eq (handoff : MigrationHandoff) (hfits : handoff.encodedLen < host.limit) :
    handoff.encodedLenOn host = .ok handoff.encodedLen := by
  have hterms : [1, DIGEST_LEN, DIGEST_LEN, DIGEST_LEN, LENGTH_PREFIX,
      handoff.rootPublicKey.length, LENGTH_PREFIX, handoff.migrationCert.length, LENGTH_PREFIX,
      handoff.retireCert.length].sum = handoff.encodedLen := by
    simp only [encodedLen, List.sum_cons, List.sum_nil]
    omega
  rw [encodedLenOn, ← hterms]
  exact Host.sum_eq_ok (by rwa [hterms])

-- The handoff's encoding, written into a buffer, is the one the migration speaks of.
theorem encodeInto_eq_encode {handoff : MigrationHandoff} {out written : List UInt8}
    (hencode : handoff.encode out.length = .ok written) (hlimit : out.length < host.limit) :
    handoff.encodeInto host out =
      .ok (written.length, written ++ out.drop written.length) := by
  have hfits := encodedLen_le_of_encode hencode
  rw [encode_eq_layout hfits] at hencode
  obtain rfl := Except.ok.inj hencode
  have htotal := encodedLenOn_eq handoff (Nat.lt_of_le_of_lt hfits hlimit)
  rw [← length_layout] at hfits htotal
  exact encodeWith_eq_ok htotal (writes_write host handoff) hfits hlimit

theorem canonical (host : Host) : Canonical host ProtocolError.Malformed encodedLen
    (encodeInto host) (decode host) fun _ => True := by
  refine canonical_of_layout (parses_read host) (writes_write host) length_layout
    (fun handoff => encodedLenOn_eq handoff) ?_ fun _ _ => trivial
  intro handoff hfits
  unfold encodedLen at hfits
  have hroot : handoff.rootPublicKey.length < host.limit := by omega
  have hmigration : handoff.migrationCert.length < host.limit := by omega
  have hretire : handoff.retireCert.length < host.limit := by omega
  exact iff_true_intro ⟨hroot, hmigration, hretire⟩

end MigrationHandoff

-- Both formats are canonical on every machine, whatever the declared lengths.
theorem bundle_and_handoff_are_canonical (host : Host) :
    Canonical host ProtocolError.Malformed Bundle.encodedLen (Bundle.encode host)
      (Bundle.decode host) (fun _ => True) ∧
    Canonical host ProtocolError.Malformed MigrationHandoff.encodedLen
      (MigrationHandoff.encodeInto host) (MigrationHandoff.decode host) (fun _ => True) :=
  ⟨Bundle.canonical host, MigrationHandoff.canonical host⟩

-- A declared length at the top of its range is refused, also where it fits the pointer width.
example : Bundle.decode ⟨.W64, true⟩ (FORMAT_VERSION :: List.replicate 8 0xff) =
    .error (.Err .Malformed) := rfl

end Nymora.Core
