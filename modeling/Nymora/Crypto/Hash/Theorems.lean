import Nymora.Crypto.Hash
import Nymora.Lib.Framing

namespace Nymora.Crypto

theorem framed_eq (bytes : List UInt8) : framed bytes = Framing.frame 8 bytes := rfl

-- A stream of framed parts determines the parts.
theorem framed_inj {left right : List (List UInt8)}
    (hleft : ∀ part ∈ left, Framing.Fits 8 part) (hright : ∀ part ∈ right, Framing.Fits 8 part)
    (hstream : left.flatMap framed = right.flatMap framed) : left = right :=
  Framing.flatMap_frame_inj (by omega) hleft hright hstream

namespace ByteHasher

@[simp] theorem stream_absorb (hasher : ByteHasher) (bytes : List UInt8) :
    (hasher.absorb bytes).stream = hasher.stream ++ framed bytes := rfl

theorem stream_foldl_absorb (hasher : ByteHasher) (parts : List (List UInt8)) :
    (parts.foldl absorb hasher).stream = hasher.stream ++ parts.flatMap framed := by
  induction parts generalizing hasher with
  | nil => simp
  | cons part parts ih =>
      rw [List.foldl_cons, ih, stream_absorb, List.flatMap_cons, List.append_assoc]

-- SHA-256 behaves on these streams as an injective function. A hash into 32 bytes is injective
-- on no infinite set, so the assumption is always about the streams hashed.
def CollisionFree [Primitives] (streams : List (List UInt8)) : Prop :=
  ∀ left ∈ streams, ∀ right ∈ streams, Primitives.sha256 left = Primitives.sha256 right →
    left = right

instance [Primitives] (streams : List (List UInt8)) : Decidable (CollisionFree streams) :=
  inferInstanceAs (Decidable (∀ left ∈ streams, ∀ right ∈ streams,
    Primitives.sha256 left = Primitives.sha256 right → left = right))

theorem CollisionFree.mono [Primitives] {streams more : List (List UInt8)}
    (hfree : CollisionFree more) (hsubset : streams ⊆ more) : CollisionFree streams :=
  fun left hleft right hright => hfree left (hsubset hleft) right (hsubset hright)

end ByteHasher

end Nymora.Crypto
