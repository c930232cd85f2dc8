import Nymora.Core.Digest
import Nymora.Core.Domain
import Nymora.Crypto.Poseidon.Hash
import Nymora.Crypto.Primitives

namespace Nymora.Crypto.Signature

open Nymora.Core

-- Secret bytes that are a canonical scalar: minted, or the zero a dissolution leaves.
structure SigningSeed where
  expose : Bytes 32
  canonical : expose.toNatLe < jubjubOrder
deriving DecidableEq

-- Clears the top five bits: a 251-bit value, below the subgroup order by construction.
def mintSigningSecret (entropy : Bytes 32) : Bytes 32 := entropy.modify 31 (· &&& 0x07)

theorem mintSigningSecret_lt (entropy : Bytes 32) :
    (mintSigningSecret entropy).toNatLe < jubjubOrder := by
  have hmask : (mintSigningSecret entropy).toNatLe = entropy.toNatLe % 2 ^ 251 :=
    entropy.toNatLe_modify_top 3 (by decide)
  rw [hmask]
  exact Nat.lt_trans (Nat.mod_lt _ (by decide)) (by decide)

def SigningSeed.mint (entropy : Bytes 32) : SigningSeed :=
  ⟨mintSigningSecret entropy, mintSigningSecret_lt entropy⟩

def SigningSeed.zero : SigningSeed := ⟨Bytes.zero 32, by rw [Bytes.toNatLe_zero]; decide⟩

-- `JubjubScalar::from_bytes`: refuses non-canonical bytes.
def scalarFromBytes (bytes : Bytes 32) : Option JubjubScalar :=
  if hlt : bytes.toNatLe < jubjubOrder then some ⟨bytes.toNatLe, hlt⟩ else none

def scalarToBytes (scalar : JubjubScalar) : Bytes 32 := Bytes.ofNatLe 32 scalar.val

-- A canonical scalar's value as a field element.
def scalarAsField (scalar : JubjubScalar) : F :=
  ⟨scalar.val, Nat.lt_trans scalar.isLt jubjubOrder_lt_fieldOrder⟩

-- Reduces a field element into the Jubjub scalar field.
def reduce (value : F) : JubjubScalar := Fin.ofNat jubjubOrder value.val

variable [Primitives]

-- Refuses anything off the prime-order subgroup.
def decodePoint (bytes : Bytes 32) : Option SubgroupPoint := Primitives.fromBytes bytes

def publicKey (sk : Bytes 32) : Option (Bytes 32) := do
  let sk ← scalarFromBytes sk
  return Primitives.toBytes (Primitives.mul Primitives.generator sk)

-- The transcript challenge before reduction.
def challenge (r pk : SubgroupPoint) (message : F) : F :=
  let (rx, ry) := Primitives.coordinates r
  let (px, py) := Primitives.coordinates pk
  Poseidon.hash [rx, ry, px, py, message]

def sign (sk : Bytes 32) (message : F) : Option (Bytes 64) := do
  let secret ← scalarFromBytes sk
  let k := reduce (Poseidon.hash
    [Field.ofNat FieldDomain.NONCE, scalarAsField secret, message])
  let r := Primitives.mul Primitives.generator k
  let pk := Primitives.mul Primitives.generator secret
  let e := reduce (challenge r pk message)
  let s := k + e * secret
  return (Primitives.toBytes r).append (scalarToBytes s)

theorem sign_isSome {sk : Bytes 32} (hcanonical : sk.toNatLe < jubjubOrder) (message : F) :
    (sign sk message).isSome := by
  simp [sign, scalarFromBytes, hcanonical]

-- The equation `S·G = R + e·PK`; every malformed input simply does not verify.
def verify (publicKey : List UInt8) (message : F) (signature : List UInt8) : Bool :=
  Option.getD (do
    let pkBytes ← Bytes.ofList? 32 publicKey
    let pk ← decodePoint pkBytes
    let sig ← Bytes.ofList? 64 signature
    let rBytes ← Bytes.ofList? 32 (sig.toList.take 32)
    let sBytes ← Bytes.ofList? 32 (sig.toList.drop 32)
    let r ← decodePoint rBytes
    let s ← scalarFromBytes sBytes
    let e := reduce (challenge r pk message)
    return decide (Primitives.mul Primitives.generator s =
      Primitives.add r (Primitives.mul pk e)) : Option Bool) false

def epochCertMessage (agora : AgoraId) (epoch : Epoch) (epochPublicKey : List UInt8) :
    Option F := do
  let key ← Bytes.ofList? 32 epochPublicKey
  let point ← decodePoint key
  let (x, y) := Primitives.coordinates point
  return Poseidon.hash [Field.ofNat FieldDomain.EPOCH_CERT, Field.fromId agora.asBytes,
    Field.fromEpoch epoch, x, y]

def migrationCertMessage (agora : AgoraId) (successorPublicKey : List UInt8) : Option F := do
  let key ← Bytes.ofList? 32 successorPublicKey
  let point ← decodePoint key
  let (x, y) := Primitives.coordinates point
  return Poseidon.hash
    [Field.ofNat FieldDomain.MIGRATION_CERT, Field.fromId agora.asBytes, x, y]

def inboxCertMessage (agora : AgoraId) (action : InboxAction) (inboxPublicKey : List UInt8) :
    Option F := do
  let key ← Bytes.ofList? 32 inboxPublicKey
  return Poseidon.hash [Field.ofNat FieldDomain.INBOX_CERT, Field.fromId agora.asBytes,
    Field.ofNat action.tag, Field.fromId key]

-- Signing and the public half under a seed: canonical keys never fail.
def SigningSeed.sign (seed : SigningSeed) (message : F) : Bytes 64 :=
  (Signature.sign seed.expose message).get (sign_isSome seed.canonical message)

theorem publicKey_isSome {sk : Bytes 32} (hcanonical : sk.toNatLe < jubjubOrder) :
    (publicKey sk).isSome := by
  simp [publicKey, scalarFromBytes, hcanonical]

def SigningSeed.publicKey (seed : SigningSeed) : Bytes 32 :=
  (Signature.publicKey seed.expose).get (publicKey_isSome seed.canonical)

end Nymora.Crypto.Signature
