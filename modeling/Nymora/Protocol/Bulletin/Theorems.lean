import Nymora.Crypto.Inbox.Theorems
import Nymora.Protocol.Bulletin

namespace Nymora.Protocol

open Nymora.Core
open Nymora.Crypto

section Layout

variable {α : Type} {width : Nat} {encode : α → List UInt8}

theorem length_flatMap_of_width (hwidth : ∀ value, (encode value).length = width)
    (values : List α) : (values.flatMap encode).length = values.length * width := by
  simp [List.length_flatMap, hwidth]

theorem length_le_flatMap (hpositive : 0 < width)
    (hwidth : ∀ value, (encode value).length = width) (values : List α) :
    values.length ≤ (values.flatMap encode).length := by
  rw [length_flatMap_of_width hwidth]
  exact Nat.le_mul_of_pos_right _ hpositive

-- Fixed-width encodings laid end to end are read back chunk by chunk.
theorem chunksExact_flatMap (hpositive : 0 < width)
    (hwidth : ∀ value, (encode value).length = width) (values : List α) :
    chunksExact width (values.flatMap encode) = values.map encode := by
  unfold chunksExact
  rw [length_flatMap_of_width hwidth, Nat.mul_div_cancel _ hpositive]
  induction values with
  | nil => rfl
  | cons value values ih =>
      rw [List.length_cons, List.range_succ_eq_map, List.map_cons, List.map_map, List.flatMap_cons,
        List.map_cons, ← ih]
      congr 1
      · rw [Nat.zero_mul, List.drop_zero, List.take_append_of_le_length (by rw [hwidth]),
          List.take_of_length_le (by rw [hwidth])]
      · apply List.map_congr_left
        intro chunk _
        have hsplit : (chunk + 1) * width = (encode value).length + chunk * width := by
          rw [hwidth]
          ring
        rw [Function.comp_apply, Nat.succ_eq_add_one, hsplit, List.drop_length_add_append]

theorem entries_flatMap (values : List α) (encode : α → Bytes 32) :
    entries (values.flatMap fun value => (encode value).toList) = values.map encode := by
  rw [entries, chunksExact_flatMap (by decide) fun value => (encode value).length_toList,
    List.filterMap_map]
  simp

theorem takeU64_append {value : Nat} (hvalue : value < 2 ^ 64) (rest : List UInt8) :
    takeU64 (LittleEndian.ofNat 8 value ++ rest) = .ok (value, rest) := by
  have hlength : ¬ (LittleEndian.ofNat 8 value ++ rest).length < 8 := by simp
  rw [takeU64, if_neg hlength, List.take_left' (LittleEndian.length_ofNat 8 value),
    List.drop_left' (LittleEndian.length_ofNat 8 value),
    LittleEndian.toNat_ofNat_of_lt (by simpa using hvalue)]

theorem takeDigest_append (bytes : Bytes 32) (rest : List UInt8) :
    takeDigest (bytes.toList ++ rest) = .ok (bytes, rest) := by
  rw [takeDigest, List.take_left' bytes.length_toList, List.drop_left' bytes.length_toList,
    Bytes.ofList?_toList]

theorem takeEntries_append (hwidth : ∀ value, (encode value).length = width) (values : List α)
    (hbounded : (values.flatMap encode).length < 2 ^ 64) (rest : List UInt8) :
    takeEntries (values.flatMap encode ++ rest) values.length width =
      .ok (values.flatMap encode, rest) := by
  have hfits : ¬ ((values.flatMap encode).length ≥ 2 ^ 64 ∨
      (values.flatMap encode ++ rest).length < (values.flatMap encode).length) := by
    rw [List.length_append]
    omega
  unfold takeEntries
  rw [← length_flatMap_of_width hwidth values, if_neg hfits, List.take_left, List.drop_left]

end Layout

variable [Primitives]

-- A sealed buffer is split where its tag was appended.
theorem openSealed_append (key : Bytes 32) (agora : AgoraId) (epoch : Epoch)
    (ciphertext : List UInt8) (tag : Bytes 16) :
    openSealed key agora epoch (ciphertext ++ tag.toList) =
      Inbox.openInPlace key (Inbox.associatedData agora epoch).toList ciphertext tag := by
  have hlength : (ciphertext ++ tag.toList).length = ciphertext.length + Inbox.SEAL_TAG_LEN := by
    rw [List.length_append, tag.length_toList, Inbox.SEAL_TAG_LEN]
  simp only [openSealed, hlength, Nat.add_sub_cancel, List.take_left, List.drop_left,
    Bytes.ofList?_toList]
  rw [if_neg (by omega)]

theorem openSealed_seal (hopens : Inbox.OpenAfterSeal) (key : Bytes 32) (agora : AgoraId)
    (epoch : Epoch) (plain : List UInt8) :
    openSealed key agora epoch
      ((Inbox.sealInPlace key (Inbox.associatedData agora epoch).toList plain).1 ++
        (Inbox.sealInPlace key (Inbox.associatedData agora epoch).toList plain).2.toList) =
      .ok plain := by
  rw [openSealed_append]
  exact Inbox.openInPlace_sealInPlace hopens key (Inbox.associatedData agora epoch).toList plain

end Nymora.Protocol
