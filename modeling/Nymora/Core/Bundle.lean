import Nymora.Core.Wire

namespace Nymora.Core

open Machine
open Codec
open Wire

def FORMAT_VERSION : UInt8 := 1

-- The routing tag of a published bundle.
structure Tag where
  fromBytes ::
  asBytes : Bytes 32
deriving DecidableEq

structure Attestation where
  proof : List UInt8
  messageHash : MessageHash
  nullifier : Nullifier
deriving DecidableEq

-- A published piece of content with the attestation that stands behind it.
structure Bundle where
  content : List UInt8
  tag : Tag
  attestation : Attestation
deriving DecidableEq

namespace Bundle

def encodedLen (bundle : Bundle) : Nat :=
  1 + LENGTH_PREFIX + bundle.content.length + DIGEST_LEN + LENGTH_PREFIX
    + bundle.attestation.proof.length + DIGEST_LEN + DIGEST_LEN

-- `encoded_len` as the machine adds it up.
def encodedLenOn (host : Host) (bundle : Bundle) : Except (Fault ProtocolError) Nat :=
  host.sum [1, LENGTH_PREFIX, bundle.content.length, DIGEST_LEN, LENGTH_PREFIX,
    bundle.attestation.proof.length, DIGEST_LEN, DIGEST_LEN]

def write (host : Host) (bundle : Bundle) : Codec.Writer ProtocolError Unit := do
  put host [FORMAT_VERSION]
  put host (LittleEndian.ofNat 8 bundle.content.length)
  put host bundle.content
  put host bundle.tag.asBytes.toList
  put host (LittleEndian.ofNat 8 bundle.attestation.proof.length)
  put host bundle.attestation.proof
  put host bundle.attestation.messageHash.asBytes.toList
  put host bundle.attestation.nullifier.asBytes.toList

-- The number of bytes written, and the buffer after.
def encode (host : Host) (bundle : Bundle) (out : List UInt8) :
    Except (Fault ProtocolError) (Nat × List UInt8) :=
  encodeWith .Malformed (bundle.encodedLenOn host) (bundle.write host) out

def read (host : Host) : Reader ProtocolError Bundle := do
  let version ← splitFirst .Malformed
  if version ≠ FORMAT_VERSION then throw (.Err .Malformed)
  let content ← takeFramed host
  let tag := Tag.fromBytes (← takeDigest)
  let proof ← takeFramed host
  let messageHash : MessageHash := .fromBytes (← takeDigest)
  let nullifier : Nullifier := .fromBytes (← takeDigest)
  let rest ← get
  if rest ≠ [] then throw (.Err .Malformed)
  return { content, tag, attestation := { proof, messageHash, nullifier } }

def decode (host : Host) (bytes : List UInt8) : Except (Fault ProtocolError) Bundle :=
  decodeWith (read host) bytes

end Bundle

end Nymora.Core
