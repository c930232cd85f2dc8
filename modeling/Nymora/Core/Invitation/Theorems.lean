import Nymora.Core.Invitation

namespace Nymora.Core.Invitation

open Machine
open Codec
open Wire

variable {host : Host}

-- The fetch key is still served in the epoch it belongs to.
def Ordered (invitation : Invitation) : Prop :=
  invitation.epoch.get ≤ invitation.validThrough.get

theorem fromUtf8_eq_some {bytes : List UInt8} {server : String} :
    fromUtf8 bytes = some server ↔ bytes = server.toUTF8.data.toList := by
  unfold fromUtf8 String.fromUTF8?
  split
  · constructor
    · intro hsome
      cases hsome
      rfl
    · rintro rfl
      rfl
  · next hinvalid =>
      constructor
      · intro hsome
        cases hsome
      · rintro rfl
        exact absurd server.isValidUTF8 hinvalid

theorem fromUtf8_serverBytes (invitation : Invitation) :
    fromUtf8 invitation.serverBytes = some invitation.server := fromUtf8_eq_some.2 rfl

-- The bytes of an encoding, field by field.
def layout (invitation : Invitation) : List UInt8 :=
  [INVITATION_VERSION] ++ (invitation.agora.asBytes.toList ++
    (invitation.policyClass.asBytes.toList ++ (invitation.statementKey.toList ++
      (invitation.logKey.toList ++ (invitation.fetchKey.expose.toList ++
        (LittleEndian.ofNat 8 invitation.epoch.u64.toNat ++
          (LittleEndian.ofNat 8 invitation.intervalSeconds.toNat ++
            (LittleEndian.ofNat 8 invitation.validThrough.u64.toNat ++
              (Framing.frame LENGTH_PREFIX invitation.serverBytes ++ [])))))))))

theorem length_layout (invitation : Invitation) :
    invitation.layout.length = invitation.encodedLen := by
  simp only [layout, encodedLen, List.length_append, List.length_singleton, Framing.length_frame,
    Bytes.length_toList, LittleEndian.length_ofNat, List.length_nil, DIGEST_LEN, LENGTH_PREFIX]
  omega

theorem parses_read (host : Host) : Parses .Malformed (read host) layout
    (fun invitation => invitation.serverBytes.length < host.limit ∧ invitation.Ordered)
    (· = []) := by
  refine Parses.bind (fun _ : Invitation => INVITATION_VERSION) parses_splitFirst
    (fun _ _ => trivial) ?_
  intro version _
  by_cases hversion : version = INVITATION_VERSION
  · rw [if_neg (not_not.2 hversion)]
    refine Parses.bind (fun invitation : Invitation => invitation.agora.asBytes)
      parses_takeDigest (fun _ _ => trivial) ?_
    intro agora _
    refine Parses.bind (fun invitation : Invitation => invitation.policyClass.asBytes)
      parses_takeDigest (fun _ _ => trivial) ?_
    intro policyClass _
    refine Parses.bind statementKey parses_takeDigest (fun _ _ => trivial) ?_
    intro statementKey _
    refine Parses.bind logKey parses_takeDigest (fun _ _ => trivial) ?_
    intro logKey _
    refine Parses.bind (fun invitation : Invitation => invitation.fetchKey.expose)
      parses_takeDigest (fun _ _ => trivial) ?_
    intro fetchKey _
    refine Parses.bind (fun invitation : Invitation => invitation.epoch.u64)
      parses_takeU64 (fun _ _ => trivial) ?_
    intro epoch _
    refine Parses.bind intervalSeconds parses_takeU64 (fun _ _ => trivial) ?_
    intro intervalSeconds _
    refine Parses.bind (fun invitation : Invitation => invitation.validThrough.u64)
      parses_takeU64 (fun _ _ => trivial) ?_
    intro validThrough _
    refine Parses.bind serverBytes (parses_takeFramed host)
      (fun _ hvalid => hvalid.1.1.1.1.1.1.1.1.1.1) ?_
    intro bytes hbytes
    cases hserver : fromUtf8 bytes with
    | none =>
        refine parses_refusal (fun _ => rfl) ?_
        rintro invitation ⟨_, rfl⟩
        rw [fromUtf8_serverBytes] at hserver
        cases hserver
    | some server =>
        obtain rfl := fromUtf8_eq_some.1 hserver
        refine parses_finish fun invitation rest => ?_
        rw [not_or, not_not, Nat.not_lt]
        constructor
        · rintro ⟨rfl, hend, hordered⟩
          have hepoch := Epoch.new_eq_iff.1 (rfl : Epoch.new epoch = Epoch.new epoch)
          have hthrough :=
            Epoch.new_eq_iff.1 (rfl : Epoch.new validThrough = Epoch.new validThrough)
          exact ⟨⟨⟨⟨⟨⟨⟨⟨⟨⟨⟨⟨hbytes, hordered⟩, hversion.symm⟩, rfl⟩, rfl⟩, rfl⟩, rfl⟩, rfl⟩, hepoch⟩,
            rfl⟩, hthrough⟩, rfl⟩, hend⟩
        · rintro ⟨⟨⟨⟨⟨⟨⟨⟨⟨⟨⟨⟨_, hordered⟩, _⟩, rfl⟩, rfl⟩, rfl⟩, rfl⟩, rfl⟩, rfl⟩, rfl⟩, rfl⟩,
            hserver⟩, rfl⟩
          have hepoch := Epoch.new_eq_iff.2 (rfl : invitation.epoch.u64 = invitation.epoch.u64)
          have hthrough :=
            Epoch.new_eq_iff.2 (rfl : invitation.validThrough.u64 = invitation.validThrough.u64)
          have hname : invitation.server = server := by
            rw [← Option.some_inj, ← fromUtf8_serverBytes, hserver, fromUtf8_eq_some.2 rfl]
          rw [hepoch, hthrough, ← hname]
          exact ⟨rfl, rfl, hordered⟩
  · rw [if_pos hversion]
    exact parses_refusal (fun _ => rfl) fun _ hvalid => hversion hvalid.2.symm

theorem writes_write (host : Host) (invitation : Invitation) :
    Writes host (invitation.write host) invitation.layout := by
  have hwrites : Writes host (invitation.write host)
      ([INVITATION_VERSION] ++ (invitation.agora.asBytes.toList ++
        (invitation.policyClass.asBytes.toList ++ (invitation.statementKey.toList ++
          (invitation.logKey.toList ++ (invitation.fetchKey.expose.toList ++
            (LittleEndian.ofNat 8 invitation.epoch.get ++
              (LittleEndian.ofNat 8 invitation.intervalSeconds.toNat ++
                (LittleEndian.ofNat 8 invitation.validThrough.get ++
                  (LittleEndian.ofNat 8 invitation.serverBytes.length ++
                    invitation.serverBytes)))))))))) := by
    refine (writes_put _).append ((writes_put _).append ((writes_put _).append ?_))
    refine (writes_put _).append ((writes_put _).append ((writes_put _).append ?_))
    refine (writes_put _).append ((writes_put _).append ((writes_put _).append ?_))
    exact (writes_put _).append (writes_put _)
  simpa only [layout, Framing.frame, LENGTH_PREFIX, Epoch.toNat_u64, List.append_nil] using hwrites

theorem encodedLenOn_eq (invitation : Invitation) (hfits : invitation.encodedLen < host.limit) :
    invitation.encodedLenOn host = .ok invitation.encodedLen := by
  have hterms : [1, 5 * DIGEST_LEN, 3 * 8, LENGTH_PREFIX, invitation.serverBytes.length].sum =
      invitation.encodedLen := by
    simp only [encodedLen, List.sum_cons, List.sum_nil]
    omega
  rw [encodedLenOn, ← hterms]
  exact Host.sum_eq_ok (by rwa [hterms])

-- The format is canonical on the invitations whose clock does not run backwards. The decoder
-- refuses the others on purpose.
theorem ordered_invitations_are_canonical (host : Host) :
    Canonical host ProtocolError.Malformed encodedLen (encode host) (decode host) Ordered := by
  refine canonical_of_layout (parses_read host) (writes_write host) length_layout
    (fun invitation => encodedLenOn_eq invitation) ?_ fun _ hvalid => hvalid.2
  intro invitation hfits
  unfold encodedLen at hfits
  exact and_iff_right (by omega)

namespace Sample

-- A fetch key for epoch 7 that is served through epoch 6.
def backwards : Invitation where
  agora := .fromBytes (Bytes.replicate 32 10)
  policyClass := .fromBytes (Bytes.replicate 32 12)
  statementKey := Bytes.replicate 32 5
  logKey := Bytes.zero 32
  fetchKey := .new (Bytes.replicate 32 15)
  epoch := .new 7
  intervalSeconds := 86400
  validThrough := .new 6
  server := ""

-- It is encoded, and what was written is refused.
theorem backwards_invitation_is_refused :
    ¬ ∀ (host : Host) (invitation : Invitation) (out after : List UInt8) (count : Nat),
      encode host invitation out = .ok (count, after) →
        decode host (after.take count) = .ok invitation := by
  intro hround
  let host : Host := ⟨.W64, true⟩
  have htotal : backwards.encodedLenOn host = .ok backwards.layout.length := by
    rw [length_layout]
    exact encodedLenOn_eq backwards (by decide +kernel)
  have hroom : backwards.layout.length ≤ (List.replicate 193 (0 : UInt8)).length := by
    decide +kernel
  have hlimit : (List.replicate 193 (0 : UInt8)).length < host.limit := by decide +kernel
  have hdecode := hround host backwards _ _ _
    (encodeWith_eq_ok htotal (writes_write host backwards) hroom hlimit)
  have hrefused : decode host backwards.layout = .error (.Err .Malformed) := by decide +kernel
  rw [List.take_left' rfl, hrefused] at hdecode
  cases hdecode

end Sample

end Nymora.Core.Invitation
