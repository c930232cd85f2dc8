import Nymora.Core.Epoch
import Nymora.Core.Wire

namespace Nymora.Core

open Machine
open Codec
open Wire

def INVITATION_VERSION : UInt8 := 1

-- What a member hands a candidate.
structure Invitation where
  agora : AgoraId
  policyClass : PolicyClass
  statementKey : Bytes 32
  logKey : Bytes 32
  fetchKey : FetchKey
  epoch : Epoch
  intervalSeconds : UInt64
  validThrough : Epoch
  server : String
deriving DecidableEq

namespace Invitation

-- `server.as_bytes()`
def serverBytes (invitation : Invitation) : List UInt8 := invitation.server.toUTF8.data.toList

def encodedLen (invitation : Invitation) : Nat :=
  1 + 5 * DIGEST_LEN + 3 * 8 + LENGTH_PREFIX + invitation.serverBytes.length

-- `encoded_len` as the machine adds it up.
def encodedLenOn (host : Host) (invitation : Invitation) : Except (Fault ProtocolError) Nat :=
  host.sum [1, 5 * DIGEST_LEN, 3 * 8, LENGTH_PREFIX, invitation.serverBytes.length]

def write (host : Host) (invitation : Invitation) : Codec.Writer ProtocolError Unit := do
  put host [INVITATION_VERSION]
  put host invitation.agora.asBytes.toList
  put host invitation.policyClass.asBytes.toList
  put host invitation.statementKey.toList
  put host invitation.logKey.toList
  put host invitation.fetchKey.expose.toList
  put host (LittleEndian.ofNat 8 invitation.epoch.get)
  put host (LittleEndian.ofNat 8 invitation.intervalSeconds.toNat)
  put host (LittleEndian.ofNat 8 invitation.validThrough.get)
  put host (LittleEndian.ofNat 8 invitation.serverBytes.length)
  put host invitation.serverBytes

-- The number of bytes written, and the buffer after.
def encode (host : Host) (invitation : Invitation) (out : List UInt8) :
    Except (Fault ProtocolError) (Nat × List UInt8) :=
  encodeWith .Malformed (invitation.encodedLenOn host) (invitation.write host) out

-- `core::str::from_utf8`
def fromUtf8 (bytes : List UInt8) : Option String := String.fromUTF8? ⟨bytes.toArray⟩

-- The last condition refuses trailing bytes, and a fetch key that is dead before its epoch.
def read (host : Host) : Reader ProtocolError Invitation := do
  let version ← splitFirst .Malformed
  if version ≠ INVITATION_VERSION then throw (.Err .Malformed)
  let agora : AgoraId := .fromBytes (← takeDigest)
  let policyClass : PolicyClass := .fromBytes (← takeDigest)
  let statementKey ← takeDigest
  let logKey ← takeDigest
  let fetchKey : FetchKey := .new (← takeDigest)
  let epoch := Epoch.new (← takeU64)
  let intervalSeconds ← takeU64
  let validThrough := Epoch.new (← takeU64)
  let server ← takeFramed host
  let server ← orMalformed (fromUtf8 server)
  let rest ← get
  if rest ≠ [] ∨ validThrough.get < epoch.get then throw (.Err .Malformed)
  return { agora, policyClass, statementKey, logKey, fetchKey, epoch, intervalSeconds,
           validThrough, server }

def decode (host : Host) (bytes : List UInt8) : Except (Fault ProtocolError) Invitation :=
  decodeWith (read host) bytes

end Invitation

end Nymora.Core
