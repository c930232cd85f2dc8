import Nymora.Core.Domain
import Nymora.Crypto.Primitives

namespace Nymora.Crypto

open Nymora.Core

-- A byte string behind its 64-bit length.
def framed (bytes : List UInt8) : List UInt8 := LittleEndian.ofNat 8 bytes.length ++ bytes

-- The byte-family hasher: everything fed to SHA-256 so far.
structure ByteHasher where
  stream : List UInt8

namespace ByteHasher

def new (domain : Domain) : ByteHasher := ⟨framed domain.tagBytes⟩

def absorb (hasher : ByteHasher) (bytes : List UInt8) : ByteHasher :=
  ⟨hasher.stream ++ framed bytes⟩

def finalize [Primitives] (hasher : ByteHasher) : Bytes 32 := Primitives.sha256 hasher.stream

end ByteHasher

namespace Field

-- A variable-length identifier's field entry: compressed first, then the identifier rule.
def fromContextBytes [Primitives] (identifier : List UInt8) : F :=
  fromId ((ByteHasher.new .ActionContext).absorb identifier).finalize

end Field

namespace Kdf

def derive [Primitives] (domain : Domain) (ikm context : List UInt8) : Bytes 32 :=
  Primitives.hkdfSha256 ikm (framed domain.tagBytes ++ framed context)

end Kdf

end Nymora.Crypto
