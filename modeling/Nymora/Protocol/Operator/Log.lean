import Nymora.Core.Digest
import Nymora.Crypto.Hash
import Nymora.Crypto.Signature

namespace Nymora.Protocol.Operator

open Nymora.Core
open Nymora.Crypto

-- One identity-free aggregate commitment.
inductive LogEntry
  | ClassRoot (epoch : Epoch) (policyClass : PolicyClass) (root : Root)
  | ExclusionRoots (epoch : Epoch) (revocation spend : Root)
  | PolicyChanged (epoch : Epoch) (policyClass : PolicyClass) (version : UInt64)
  | Frozen (epoch : Epoch)
deriving DecidableEq

-- A discriminant, then every field framed.
def LogEntry.absorbInto (hasher : ByteHasher) : LogEntry → ByteHasher
  | .ClassRoot epoch policyClass root =>
      (((hasher.absorb [0]).absorb epoch.toLeBytes).absorb policyClass.asBytes.toList).absorb
        root.asBytes.toList
  | .ExclusionRoots epoch revocation spend =>
      (((hasher.absorb [1]).absorb epoch.toLeBytes).absorb revocation.asBytes.toList).absorb
        spend.asBytes.toList
  | .PolicyChanged epoch policyClass version =>
      (((hasher.absorb [2]).absorb epoch.toLeBytes).absorb policyClass.asBytes.toList).absorb
        (LittleEndian.ofNat 8 version.toNat)
  | .Frozen epoch => (hasher.absorb [3]).absorb epoch.toLeBytes

-- The epoch an entry speaks about.
def LogEntry.epoch : LogEntry → Epoch
  | .ClassRoot epoch _ _ | .ExclusionRoots epoch _ _ | .PolicyChanged epoch _ _
  | .Frozen epoch => epoch

def LogEntry.isFrozen : LogEntry → Bool
  | .Frozen _ => true
  | _ => false

-- The operator's commitment to the log's first `sequence + 1` entries.
structure SignedHead where
  sequence : Nat
  head : Bytes 32
  signature : Bytes 64
deriving DecidableEq

structure TransparencyLog where
  seed : Signature.SigningSeed
  entries : List LogEntry
  heads : List SignedHead

-- The previous head and the entry's canonical encoding, domain-tagged.
def chainStep [Primitives] (prev : Bytes 32) (entry : LogEntry) : Bytes 32 :=
  (entry.absorbInto ((ByteHasher.new .TransparencyEntry).absorb prev.toList)).finalize

def headMessage [Primitives] (sequence : Nat) (head : Bytes 32) : F :=
  Field.fromId (((ByteHasher.new .TransparencyHead).absorb
    (LittleEndian.ofNat 8 sequence)).absorb head.toList).finalize

namespace TransparencyLog

def new (seed : Bytes 32) : TransparencyLog := ⟨.mint seed, [], []⟩

-- Appends an entry, extends the chain, and signs the new head.
def append [Primitives] (log : TransparencyLog) (entry : LogEntry) : TransparencyLog :=
  let prev := (log.heads.getLast?.map SignedHead.head).getD (Bytes.zero 32)
  let head := chainStep prev entry
  let sequence := log.entries.length
  let signature := log.seed.sign (headMessage sequence head)
  { log with entries := log.entries ++ [entry], heads := log.heads ++ [⟨sequence, head, signature⟩] }

-- The key auditors verify heads against.
def publicKey [Primitives] (log : TransparencyLog) : Bytes 32 := log.seed.publicKey

end TransparencyLog

section Audit

variable [Primitives]

def headVerifies (head : SignedHead) (publicKey : List UInt8) : Bool :=
  Signature.verify publicKey (headMessage head.sequence head.head) head.signature.toList

-- The chained digests over a list of entries.
def recompute (chain : Bytes 32) : List LogEntry → List (Bytes 32)
  | [] => []
  | entry :: entries => chainStep chain entry :: recompute (chainStep chain entry) entries

-- Append-only integrity: every presented head is a validly signed commitment to its prefix.
def verifyLog (entries : List LogEntry) (heads : List SignedHead) (publicKey : List UInt8) :
    Bool :=
  let recomputed := recompute (Bytes.zero 32) entries
  heads.all fun head =>
    recomputed[head.sequence]? == some head.head && headVerifies head publicKey

-- Two validly signed heads of one sequence with different digests.
def equivocation (a b : SignedHead) (publicKey : List UInt8) : Bool :=
  a.sequence == b.sequence && a.head != b.head && headVerifies a publicKey &&
    headVerifies b publicKey

def conformsFrom (last : Option Epoch) (frozen : Bool) : List LogEntry → Bool
  | [] => true
  | entry :: entries =>
      if frozen then false
      else if last.any fun previous => entry.epoch.get < previous.get then false
      else conformsFrom (some entry.epoch) (frozen || entry.isFrozen) entries

-- Epochs never rewind, and nothing follows a freeze.
def conforms (entries : List LogEntry) : Bool := conformsFrom none false entries

end Audit

end Nymora.Protocol.Operator
