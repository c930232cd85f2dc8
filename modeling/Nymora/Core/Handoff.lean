import Nymora.Core.Wire

namespace Nymora.Core

open Machine
open Codec
open Wire (takeDigest takeFramed)

def HANDOFF_VERSION : UInt8 := 2

-- What the old device hands the successor in a planned migration.
structure MigrationHandoff where
  agora : AgoraId
  credentialKey : CredentialKey
  rootOpening : RootOpening
  rootPublicKey : List UInt8
  migrationCert : List UInt8
  retireCert : List UInt8
deriving DecidableEq

namespace MigrationHandoff

def LENGTH_PREFIX : Nat := 8

def encodedLen (handoff : MigrationHandoff) : Nat :=
  1 + DIGEST_LEN + DIGEST_LEN + DIGEST_LEN + LENGTH_PREFIX + handoff.rootPublicKey.length
    + LENGTH_PREFIX + handoff.migrationCert.length + LENGTH_PREFIX + handoff.retireCert.length

-- The bytes written into a buffer of the given size.
def encode (handoff : MigrationHandoff) (out : Nat) : Except ProtocolError (List UInt8) :=
  if handoff.encodedLen ≤ out then
    .ok ([HANDOFF_VERSION] ++ handoff.agora.asBytes.toList
      ++ handoff.credentialKey.expose.toList ++ handoff.rootOpening.expose.toList
      ++ Framing.frame LENGTH_PREFIX handoff.rootPublicKey
      ++ Framing.frame LENGTH_PREFIX handoff.migrationCert
      ++ Framing.frame LENGTH_PREFIX handoff.retireCert)
  else
    .error .Malformed

variable {handoff : MigrationHandoff} {out : Nat} {written : List UInt8}

theorem encodedLen_le_of_encode (hencode : handoff.encode out = .ok written) :
    handoff.encodedLen ≤ out := by
  unfold encode at hencode
  split at hencode
  · assumption
  · cases hencode

-- `encoded_len` as the machine adds it up.
def encodedLenOn (host : Host) (handoff : MigrationHandoff) : Except (Fault ProtocolError) Nat :=
  host.sum [1, DIGEST_LEN, DIGEST_LEN, DIGEST_LEN, LENGTH_PREFIX, handoff.rootPublicKey.length,
    LENGTH_PREFIX, handoff.migrationCert.length, LENGTH_PREFIX, handoff.retireCert.length]

def write (host : Host) (handoff : MigrationHandoff) : Codec.Writer ProtocolError Unit := do
  put host [HANDOFF_VERSION]
  put host handoff.agora.asBytes.toList
  put host handoff.credentialKey.expose.toList
  put host handoff.rootOpening.expose.toList
  put host (LittleEndian.ofNat 8 handoff.rootPublicKey.length)
  put host handoff.rootPublicKey
  put host (LittleEndian.ofNat 8 handoff.migrationCert.length)
  put host handoff.migrationCert
  put host (LittleEndian.ofNat 8 handoff.retireCert.length)
  put host handoff.retireCert

-- `encode` on the buffer itself: the number of bytes written, and the buffer after.
def encodeInto (host : Host) (handoff : MigrationHandoff) (out : List UInt8) :
    Except (Fault ProtocolError) (Nat × List UInt8) :=
  encodeWith .Malformed (handoff.encodedLenOn host) (handoff.write host) out

def read (host : Host) : Reader ProtocolError MigrationHandoff := do
  let version ← splitFirst .Malformed
  if version ≠ HANDOFF_VERSION then throw (.Err .Malformed)
  let agora : AgoraId := .fromBytes (← takeDigest)
  let credentialKey : CredentialKey := .new (← takeDigest)
  let rootOpening : RootOpening := .new (← takeDigest)
  let rootPublicKey ← takeFramed host
  let migrationCert ← takeFramed host
  let retireCert ← takeFramed host
  let rest ← get
  if rest ≠ [] then throw (.Err .Malformed)
  return { agora, credentialKey, rootOpening, rootPublicKey, migrationCert, retireCert }

def decode (host : Host) (bytes : List UInt8) : Except (Fault ProtocolError) MigrationHandoff :=
  decodeWith (read host) bytes

end MigrationHandoff

end Nymora.Core
