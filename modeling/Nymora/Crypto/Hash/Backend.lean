import Nymora.Crypto.Kdf.Theorems
import Nymora.Crypto.Reference

namespace Nymora.Crypto

open Nymora.Core

-- A hash usable by the hasher. It supplies raw absorption only.
class HashBackend (β : Type) where
  start : β
  absorbRaw : β → List UInt8 → β
  finalizeRaw : β → Bytes 32

-- SHA-256 by everything it has been fed.
structure Sha256Backend where
  stream : List UInt8

instance [Primitives] : HashBackend Sha256Backend where
  start := ⟨[]⟩
  absorbRaw backend bytes := ⟨backend.stream ++ bytes⟩
  finalizeRaw backend := Primitives.sha256 backend.stream

-- A domain-separated hasher over any backend.
structure Hasher (β : Type) where
  backend : β

namespace Hasher

variable {β : Type} [HashBackend β]

-- The length goes first, at fixed width: `bytes.len() as u64`.
def absorbFramed (hasher : Hasher β) (bytes : List UInt8) : Hasher β :=
  let backend := HashBackend.absorbRaw hasher.backend (LittleEndian.ofNat 8 bytes.length)
  ⟨HashBackend.absorbRaw backend bytes⟩

def new (domain : Domain) : Hasher β :=
  let hasher : Hasher β := ⟨HashBackend.start⟩
  hasher.absorbFramed domain.tagBytes

def absorb (hasher : Hasher β) (bytes : List UInt8) : Hasher β := hasher.absorbFramed bytes

def finalize (hasher : Hasher β) : Bytes 32 := HashBackend.finalizeRaw hasher.backend

-- A hasher that has absorbed these values, in order.
def absorbing (domain : Domain) (values : List (List UInt8)) : Hasher β :=
  values.foldl absorb (new domain)

end Hasher

-- A backend with a record of what it was fed.
structure Tapped (β : Type) where
  backend : β
  fed : List UInt8

instance {β : Type} [HashBackend β] : HashBackend (Tapped β) where
  start := ⟨HashBackend.start, []⟩
  absorbRaw tapped bytes := ⟨HashBackend.absorbRaw tapped.backend bytes, tapped.fed ++ bytes⟩
  finalizeRaw tapped := HashBackend.finalizeRaw tapped.backend

namespace Hasher

variable {β : Type} [HashBackend β]

-- The tap sees every byte, and changes nothing of what the backend does with it.
theorem backend_tapped (hasher : Hasher (Tapped β)) (values : List (List UInt8)) :
    (values.foldl absorb hasher).backend.backend =
      (values.foldl absorb (⟨hasher.backend.backend⟩ : Hasher β)).backend := by
  induction values generalizing hasher with
  | nil => rfl
  | cons value values ih =>
      rw [List.foldl_cons, ih, List.foldl_cons]
      rfl

theorem finalize_tapped (domain : Domain) (values : List (List UInt8)) :
    (absorbing domain values : Hasher (Tapped β)).finalize =
      (absorbing domain values : Hasher β).finalize :=
  congrArg HashBackend.finalizeRaw (backend_tapped (new domain) values)

-- The raw bytes that the backend was fed.
def fed (β : Type) [HashBackend β] (domain : Domain) (values : List (List UInt8)) : List UInt8 :=
  (absorbing domain values : Hasher (Tapped β)).backend.fed

theorem fed_foldl_absorb (hasher : Hasher (Tapped β)) (values : List (List UInt8)) :
    (values.foldl absorb hasher).backend.fed = hasher.backend.fed ++ values.flatMap framed := by
  induction values generalizing hasher with
  | nil => rw [List.foldl_nil, List.flatMap_nil, List.append_nil]
  | cons value values ih =>
      have hvalue : (hasher.absorb value).backend.fed = hasher.backend.fed ++ framed value :=
        List.append_assoc _ _ _
      rw [List.foldl_cons, ih, hvalue, List.flatMap_cons, List.append_assoc]

theorem fed_eq (domain : Domain) (values : List (List UInt8)) :
    fed β domain values = (domain.tagBytes :: values).flatMap framed := by
  have htag : (new domain : Hasher (Tapped β)).backend.fed = framed domain.tagBytes := rfl
  rw [fed, absorbing, fed_foldl_absorb, htag, List.flatMap_cons]

-- Over SHA-256 it is the byte-family hasher.
theorem stream_sha256 [Primitives] (hasher : Hasher Sha256Backend) (values : List (List UInt8)) :
    (values.foldl absorb hasher).backend.stream =
      (values.foldl ByteHasher.absorb ⟨hasher.backend.stream⟩).stream := by
  induction values generalizing hasher with
  | nil => rfl
  | cons value values ih =>
      have hvalue : (hasher.absorb value).backend.stream =
          hasher.backend.stream ++ framed value := List.append_assoc _ _ _
      rw [List.foldl_cons, ih, hvalue, List.foldl_cons]
      rfl

theorem finalize_sha256 [Primitives] (domain : Domain) (values : List (List UInt8)) :
    (absorbing domain values : Hasher Sha256Backend).finalize =
      (values.foldl ByteHasher.absorb (ByteHasher.new domain)).finalize :=
  congrArg Primitives.sha256 (stream_sha256 (new domain) values)

theorem tag_eq_of_tagBytes_eq {domain other : Domain} (htags : domain.tagBytes = other.tagBytes) :
    domain.tag = other.tag := by
  have hbytes : domain.tag.toUTF8 = other.tag.toUTF8 := ByteArray.ext (Array.ext' htags)
  exact String.toByteArray_inj.1 hbytes

variable {domain other : Domain} {values others : List (List UInt8)}

theorem eq_of_fed_eq (hvalues : ∀ value ∈ values, value.length < 2 ^ 64)
    (hothers : ∀ value ∈ others, value.length < 2 ^ 64)
    (hfed : fed β domain values = fed β other others) :
    domain.tag = other.tag ∧ values = others := by
  rw [fed_eq, fed_eq] at hfed
  have hparts := framed_inj
    (List.forall_mem_cons.2 ⟨Kdf.fits_tagBytes domain, fun value hvalue => hvalues value hvalue⟩)
    (List.forall_mem_cons.2 ⟨Kdf.fits_tagBytes other, fun value hvalue => hothers value hvalue⟩)
    hfed
  obtain ⟨htags, hrest⟩ := List.cons.inj hparts
  exact ⟨tag_eq_of_tagBytes_eq htags, hrest⟩

-- Framed absorption is injective: the bytes fed to a backend, whichever it is, name the tag and
-- the absorbed values one by one. An empty value is one of them.
theorem framed_absorption_is_injective (β : Type) [HashBackend β] (domain other : Domain)
    (values others : List (List UInt8)) (hvalues : ∀ value ∈ values, value.length < 2 ^ 64)
    (hothers : ∀ value ∈ others, value.length < 2 ^ 64) :
    (fed β domain values = fed β other others ↔ domain.tag = other.tag ∧ values = others) ∧
    ∀ before after, values = before ++ after →
      fed β domain values ≠ fed β domain (before ++ [] :: after) := by
  refine ⟨⟨eq_of_fed_eq hvalues hothers, ?_⟩, ?_⟩
  · rintro ⟨htag, rfl⟩
    rw [fed_eq, fed_eq, Domain.tagBytes, Domain.tagBytes, htag]
  · rintro before after rfl hfed
    have hempty : ∀ value ∈ before ++ [] :: after, value.length < 2 ^ 64 := by
      intro value hvalue
      rcases List.mem_append.1 hvalue with hbefore | hlater
      · exact hvalues value (List.mem_append_left _ hbefore)
      · rcases List.mem_cons.1 hlater with rfl | hafter
        · decide
        · exact hvalues value (List.mem_append_right _ hafter)
    have hlength := congrArg List.length (eq_of_fed_eq hvalues hempty hfed).2
    simp only [List.length_append, List.length_cons] at hlength
    omega

end Hasher

end Nymora.Crypto

namespace Nymora.Crypto.Hasher.Sample

open Nymora.Core
open scoped Nymora.Crypto.Reference

-- The second value imitates the length prefix of another.
theorem framed_absorption_is_injective_imitated :
    fed Sha256Backend .LedgerEntry [[1], [1, 0, 0, 0, 0, 0, 0, 0, 2]] ≠
      fed Sha256Backend .LedgerEntry [[1], [1], [2]] := by
  intro hfed
  obtain ⟨_, hsame⟩ := (framed_absorption_is_injective Sha256Backend .LedgerEntry .LedgerEntry
    [[1], [1, 0, 0, 0, 0, 0, 0, 0, 2]] [[1], [1], [2]] (by decide) (by decide)).1.1 hfed
  exact absurd hsame (by decide)

end Nymora.Crypto.Hasher.Sample
