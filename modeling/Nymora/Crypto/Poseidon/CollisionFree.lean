import Nymora.Crypto.Poseidon.Hash

namespace Nymora.Crypto.Poseidon

-- The hash behaves on these inputs as a collision-free one that never hits zero. A hash into
-- a finite field is injective on no infinite set, so the assumption is always about the list
-- of inputs that the computation in question hashes.
structure CollisionFree (inputs : List (List F)) : Prop where
  inj : ∀ left ∈ inputs, ∀ right ∈ inputs, left.length = right.length →
    hash left = hash right → left = right
  ne_zero : ∀ input ∈ inputs, hash input ≠ 0

instance (inputs : List (List F)) : Decidable (CollisionFree inputs) :=
  decidable_of_iff
    ((∀ left ∈ inputs, ∀ right ∈ inputs, left.length = right.length →
      hash left = hash right → left = right) ∧ ∀ input ∈ inputs, hash input ≠ 0)
    ⟨fun ⟨hinj, hne⟩ => ⟨hinj, hne⟩, fun ⟨hinj, hne⟩ => ⟨hinj, hne⟩⟩

theorem CollisionFree.mono {inputs more : List (List F)} (hfree : CollisionFree more)
    (hsubset : inputs ⊆ more) : CollisionFree inputs where
  inj left hleft right hright := hfree.inj left (hsubset hleft) right (hsubset hright)
  ne_zero input hinput := hfree.ne_zero input (hsubset hinput)

end Nymora.Crypto.Poseidon
