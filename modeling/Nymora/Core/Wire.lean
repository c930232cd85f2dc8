import Nymora.Core.Digest
import Nymora.Core.Error
import Nymora.Lib.Codec
import Nymora.Lib.Framing

namespace Nymora.Core.Wire

open Machine
open Buffers
open Codec

-- The private readers of the format modules. Each module has its own copy of the ones it uses.
def LENGTH_PREFIX : Nat := 8

def u64FromLeBytes (bytes : Bytes 8) : UInt64 := .ofNat bytes.toNatLe

abbrev orMalformed {α : Type} (value : Option α) : Except (Fault ProtocolError) α :=
  okOr .Malformed value

-- A fixed number of bytes, as an array of that width.
def takeArray (width : Nat) : Reader ProtocolError (Bytes width) := do
  let bytes ← take .Malformed width
  orMalformed (Bytes.ofList? width bytes)

def takeDigest : Reader ProtocolError (Bytes 32) := takeArray DIGEST_LEN

def takeU64 : Reader ProtocolError UInt64 := do
  let bytes ← takeArray 8
  return u64FromLeBytes bytes

-- A length-prefixed field. The prefix is split off before the length is taken, so that no
-- declared length is ever added to an offset.
def takeFramed (host : Host) : Reader ProtocolError (List UInt8) := do
  let rest ← get
  let lengthPrefix ← orMalformed (slice rest 0 LENGTH_PREFIX)
  let lengthPrefix ← orMalformed (Bytes.ofList? 8 lengthPrefix)
  let len ← orMalformed (host.usizeFrom (u64FromLeBytes lengthPrefix))
  let afterPrefix ← orMalformed (slice rest LENGTH_PREFIX rest.length)
  let body ← orMalformed (slice afterPrefix 0 len)
  let rest ← (inBounds (slice afterPrefix len afterPrefix.length) : Except (Fault ProtocolError) _)
  set rest
  return body

theorem toNat_u64FromLeBytes (bytes : Bytes 8) : (u64FromLeBytes bytes).toNat = bytes.toNatLe := by
  have hlt := bytes.toNatLe_lt
  rw [u64FromLeBytes, UInt64.toNat_ofNat_of_lt']
  exact hlt

theorem u64FromLeBytes_eq_iff {bytes : Bytes 8} {value : UInt64} :
    u64FromLeBytes bytes = value ↔ bytes = Bytes.ofNatLe 8 value.toNat := by
  rw [← UInt64.toNat_inj, toNat_u64FromLeBytes]
  constructor
  · intro hvalue
    rw [← hvalue, Bytes.ofNatLe_toNatLe]
  · rintro rfl
    exact Bytes.toNatLe_ofNatLe value.toNat_lt

theorem parses_takeArray (width : Nat) :
    Parses .Malformed (takeArray width) Bytes.toList (fun _ => True) fun _ => True := by
  have htaken := (parses_take ProtocolError.Malformed width).convert (Bytes.ofList? width)
    Bytes.toList fun _ _ => Bytes.ofList?_eq_some
  exact htaken.congr (fun _ _ => rfl) fun bytes => (iff_true_intro bytes.length_toList).symm

theorem parses_takeDigest :
    Parses .Malformed takeDigest Bytes.toList (fun _ => True) fun _ => True :=
  parses_takeArray DIGEST_LEN

theorem parses_takeU64 : Parses .Malformed takeU64
    (fun value => LittleEndian.ofNat 8 value.toNat) (fun _ => True) fun _ => True := by
  have htaken := (parses_takeArray 8).convert (fun bytes => some (u64FromLeBytes bytes))
    (fun value => Bytes.ofNatLe 8 value.toNat) fun bytes value => by
      rw [Option.some_inj, u64FromLeBytes_eq_iff]
  exact htaken

-- Reading a frame, where the machine can hold one of that length.
theorem run_takeFramed (host : Host) (input : List UInt8) : (takeFramed host).run input =
    match Framing.unframe LENGTH_PREFIX input with
    | some (body, rest) =>
        if body.length < host.limit then .ok (body, rest) else .error (.Err .Malformed)
    | none => .error (.Err .Malformed) := by
  unfold Framing.unframe
  by_cases hlead : LENGTH_PREFIX ≤ input.length
  · obtain ⟨bytes, after, rfl⟩ : ∃ (bytes : Bytes 8) (after : List UInt8),
        input = bytes.toList ++ after :=
      ⟨⟨input.take 8, List.length_take_of_le hlead⟩, input.drop 8,
        (List.take_append_drop 8 input).symm⟩
    have htake : (bytes.toList ++ after).take LENGTH_PREFIX = bytes.toList :=
      List.take_left' bytes.length_toList
    have hdrop : (bytes.toList ++ after).drop LENGTH_PREFIX = after :=
      List.drop_left' bytes.length_toList
    have hhead : slice (bytes.toList ++ after) 0 LENGTH_PREFIX = some bytes.toList := by
      rw [slice, if_pos ⟨Nat.zero_le _, hlead⟩, htake, List.drop_zero]
    have htail : slice (bytes.toList ++ after) LENGTH_PREFIX (bytes.toList ++ after).length =
        some after := by
      rw [slice, if_pos ⟨hlead, Nat.le_refl _⟩, List.take_length, hdrop]
    simp only [takeFramed, orMalformed, run_get, hhead, run_okOr_some, Bytes.ofList?_toList,
      htake, hdrop, htail]
    by_cases hfits : bytes.toNatLe < host.limit
    · have hsize : host.usizeFrom (u64FromLeBytes bytes) = some bytes.toNatLe :=
        Host.usizeFrom_eq_some.2 ⟨toNat_u64FromLeBytes bytes, hfits⟩
      simp only [hsize, run_okOr_some]
      by_cases hbody : bytes.toNatLe ≤ after.length
      · have hbodySlice : slice after 0 bytes.toNatLe = some (after.take bytes.toNatLe) :=
          if_pos ⟨Nat.zero_le _, hbody⟩
        have hrestSlice : slice after bytes.toNatLe after.length =
            some (after.drop bytes.toNatLe) := by
          rw [slice, if_pos ⟨hbody, Nat.le_refl _⟩, List.take_length]
        have hlong : ¬ ((bytes.toList ++ after).length < LENGTH_PREFIX ∨
            after.length < LittleEndian.toNat bytes.toList) := by
          rw [not_or]
          exact ⟨by omega, Nat.not_lt.2 hbody⟩
        rw [if_neg hlong]
        simp only [hbodySlice, run_okOr_some, hrestSlice, run_inBounds_some]
        have hsmall : (after.take (LittleEndian.toNat bytes.toList)).length < host.limit :=
          Nat.lt_of_le_of_lt (List.length_take_le _ _) hfits
        rw [if_pos hsmall]
        rfl
      · have hbodySlice : slice after 0 bytes.toNatLe = none :=
          if_neg fun hslice => hbody hslice.2
        rw [if_pos (.inr (Nat.not_le.1 hbody))]
        simp only [hbodySlice, run_okOr_none]
    · have hsize : host.usizeFrom (u64FromLeBytes bytes) = none := by
        rw [Host.usizeFrom, toNat_u64FromLeBytes, if_neg hfits]
      simp only [hsize, run_okOr_none]
      split
      · next hread =>
          split at hread
          · cases hread
          · next hshort =>
              obtain ⟨rfl, rfl⟩ := Prod.mk.inj (Option.some.inj hread)
              have hlength : ¬ (after.take (LittleEndian.toNat bytes.toList)).length <
                  host.limit := by
                rw [List.length_take, Nat.min_eq_left (Nat.not_lt.1 (not_or.1 hshort).2)]
                exact hfits
              rw [if_neg hlength]
      · rfl
  · have hhead : slice input 0 LENGTH_PREFIX = none := if_neg fun hslice => hlead hslice.2
    simp only [takeFramed, orMalformed, run_get, hhead, run_okOr_none]
    rw [if_pos (.inl (Nat.not_le.1 hlead))]

theorem parses_takeFramed (host : Host) : Parses .Malformed (takeFramed host)
    (Framing.frame LENGTH_PREFIX) (fun bytes => bytes.length < host.limit) fun _ => True := by
  apply parses_of_reads
  · intro bytes rest hfits
    have hlimit := host.limit_le
    have hframe : Framing.Fits LENGTH_PREFIX bytes := by
      unfold Framing.Fits LENGTH_PREFIX
      omega
    rw [run_takeFramed, Framing.unframe_frame_append hframe]
    exact if_pos hfits
  · intro input bytes rest hrun
    rw [run_takeFramed] at hrun
    cases hread : Framing.unframe LENGTH_PREFIX input with
    | none =>
        rw [hread] at hrun
        cases hrun
    | some read =>
        obtain ⟨body, after⟩ := read
        simp only [hread] at hrun
        split at hrun
        · next hfits =>
            obtain ⟨rfl, rfl⟩ := Prod.mk.inj (Except.ok.inj hrun)
            exact ⟨hfits, (Framing.eq_frame_append_of_unframe hread).1⟩
        · cases hrun
  · intro input
    rw [run_takeFramed]
    cases Framing.unframe LENGTH_PREFIX input with
    | none => exact .inl rfl
    | some read =>
        obtain ⟨body, after⟩ := read
        by_cases hfits : body.length < host.limit
        · exact .inr ⟨body, after, if_pos hfits⟩
        · exact .inl (if_neg hfits)

end Nymora.Core.Wire
