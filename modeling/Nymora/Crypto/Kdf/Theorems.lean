import Mathlib.Data.Set.Function
import Nymora.Crypto.Hash.Theorems

namespace Nymora.Crypto.Kdf

open Nymora.Core

-- What one derivation expands: the keying material, and the domain and context as its info.
def input (domain : Domain) (ikm context : List UInt8) : List UInt8 × List UInt8 :=
  (ikm, framed domain.tagBytes ++ framed context)

theorem fits_tagBytes (domain : Domain) : Framing.Fits 8 domain.tagBytes := by
  cases domain <;> unfold Framing.Fits <;> decide +kernel

-- Domain, keying material and context are read back from an input.
theorem input_inj {domain other : Domain} {ikm key context later : List UInt8}
    (hcontext : Framing.Fits 8 context) (hlater : Framing.Fits 8 later)
    (hinput : input domain ikm context = input other key later) :
    domain.tagBytes = other.tagBytes ∧ ikm = key ∧ context = later := by
  obtain ⟨hikm, hinfo⟩ := Prod.mk.inj hinput
  rw [framed_eq, framed_eq, framed_eq, framed_eq] at hinfo
  obtain ⟨htags, hrest⟩ := Framing.frame_append_inj (fits_tagBytes domain) (fits_tagBytes other) hinfo
  rw [← List.append_nil (Framing.frame 8 context),
    ← List.append_nil (Framing.frame 8 later)] at hrest
  exact ⟨htags, hikm, (Framing.frame_append_inj hcontext hlater hrest).1⟩

variable [Primitives]

-- The first `width` bytes of the derivations tell these inputs apart.
def CollisionFree (width : Nat) (inputs : Set (List UInt8 × List UInt8)) : Prop :=
  Set.InjOn (fun input => (Primitives.hkdfSha256 input.1 input.2).toList.take width) inputs

theorem CollisionFree.input_eq {inputs : Set (List UInt8 × List UInt8)} {domain other : Domain}
    {ikm key context later : List UInt8} (hfree : CollisionFree 32 inputs)
    (hinput : input domain ikm context ∈ inputs) (hother : input other key later ∈ inputs)
    (hderived : derive domain ikm context = derive other key later) :
    input domain ikm context = input other key later :=
  hfree hinput hother (congrArg (fun derived => derived.toList.take 32) hderived)

end Nymora.Crypto.Kdf
