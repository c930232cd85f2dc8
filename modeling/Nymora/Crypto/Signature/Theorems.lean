import Nymora.Crypto.Signature

namespace Nymora.Crypto.Signature

variable [Primitives]

-- What a seed signs verifies under its public half.
def Correct : Prop :=
  ∀ (seed : SigningSeed) (message : F),
    verify seed.publicKey.toList message (seed.sign message).toList = true

def SigningSeed.scalar (seed : SigningSeed) : JubjubScalar := ⟨seed.expose.toNatLe, seed.canonical⟩

omit [Primitives] in
theorem SigningSeed.scalarFromBytes_expose (seed : SigningSeed) :
    scalarFromBytes seed.expose = some seed.scalar :=
  dif_pos seed.canonical

omit [Primitives] in
theorem scalarFromBytes_scalarToBytes (scalar : JubjubScalar) :
    scalarFromBytes (scalarToBytes scalar) = some scalar := by
  have hvalue : (scalarToBytes scalar).toNatLe = scalar.val :=
    Bytes.toNatLe_ofNatLe (Nat.lt_trans scalar.isLt (by decide))
  unfold scalarFromBytes
  simp [hvalue]

theorem SigningSeed.publicKey_eq (seed : SigningSeed) :
    seed.publicKey = Primitives.toBytes (Primitives.mul Primitives.generator seed.scalar) := by
  simp [SigningSeed.publicKey, Signature.publicKey, seed.scalarFromBytes_expose]

-- A scheme over a group with a faithful encoding is correct: the equation it checks is the one
-- its signatures solve.
theorem correct_of_group
    (hdecode : ∀ point : SubgroupPoint, Primitives.fromBytes (Primitives.toBytes point) = some point)
    (hlinear : ∀ k e secret : JubjubScalar,
      Primitives.mul Primitives.generator (k + e * secret) =
        Primitives.add (Primitives.mul Primitives.generator k)
          (Primitives.mul (Primitives.mul Primitives.generator secret) e)) : Correct := by
  have hwhole : ∀ left right : Bytes 32,
      Bytes.ofList? 64 (left.toList ++ right.toList) = some (left.append right) :=
    fun left right => Bytes.ofList?_toList (left.append right)
  have htake : ∀ left right : Bytes 32, (left.toList ++ right.toList).take 32 = left.toList :=
    fun left _ => List.take_left' left.length_toList
  have hdrop : ∀ left right : Bytes 32, (left.toList ++ right.toList).drop 32 = right.toList :=
    fun left _ => List.drop_left' left.length_toList
  intro seed message
  simp only [verify, seed.publicKey_eq, SigningSeed.sign, Signature.sign,
    seed.scalarFromBytes_expose, Bytes.ofList?_toList, Option.bind_eq_bind, Option.bind_some,
    Option.get_some, Option.pure_def, Bytes.toList_append, decodePoint, hdecode, hwhole, htake,
    hdrop, scalarFromBytes_scalarToBytes, Option.getD_some, decide_eq_true_eq]
  exact hlinear _ _ _

end Nymora.Crypto.Signature
