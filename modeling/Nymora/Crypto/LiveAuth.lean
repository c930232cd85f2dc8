import Mathlib.Data.List.Sort
import Nymora.Core.Digest
import Nymora.Crypto.Hash

namespace Nymora.Crypto.LiveAuth

open Nymora.Core

-- Width of a session nonce and of its blinding.
abbrev NONCE_LEN : Nat := 32

-- `sort_unstable`: ascending byte-lexicographic.
def sortUnstable (nonces : List (Bytes NONCE_LEN)) : List (Bytes NONCE_LEN) :=
  nonces.insertionSort fun left right => (compare left right).isLE = true

variable [Primitives]

def commitment (nonce blinding : Bytes NONCE_LEN) : SessionCommitment :=
  .fromBytes (((ByteHasher.new .LiveAuthCommitment).absorb nonce.toList).absorb
    blinding.toList).finalize

-- The context, and the nonces as they are left: sorted in place.
def context (nonces : List (Bytes NONCE_LEN)) (channelMetadata : List UInt8) :
    SessionContext × List (Bytes NONCE_LEN) :=
  let nonces := sortUnstable nonces
  let hasher := (ByteHasher.new .LiveAuthContext).absorb (LittleEndian.ofNat 8 nonces.length)
  let hasher := nonces.foldl (fun hasher nonce => hasher.absorb nonce.toList) hasher
  (.fromBytes (hasher.absorb channelMetadata).finalize, nonces)

end Nymora.Crypto.LiveAuth
