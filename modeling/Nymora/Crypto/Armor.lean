import Nymora.Lib.Buffers
import Nymora.Lib.Machine
import Nymora.Core.Error
import Nymora.Crypto.Hash

namespace Nymora.Crypto.Armor

open Nymora.Core
open Buffers
open Machine

-- `"nymora1"`
def PREFIX : List UInt8 := "nymora1".toUTF8.data.toList

def CHECK_LEN : Nat := 4

-- What an armored artifact is.
inductive Kind
  | Bundle | Invitation | SessionCode | ProposalCode | Challenge | LiveAuthCommitment
  | LiveAuthReveal | LiveAuthProof
deriving DecidableEq, Repr

namespace Kind

def byte : Kind → UInt8
  | Bundle => 1
  | Invitation => 2
  | SessionCode => 3
  | ProposalCode => 4
  | Challenge => 5
  | LiveAuthCommitment => 6
  | LiveAuthReveal => 7
  | LiveAuthProof => 8

def fromByte (byte : UInt8) : Option Kind :=
  match byte.toNat with
  | 1 => some Bundle
  | 2 => some Invitation
  | 3 => some SessionCode
  | 4 => some ProposalCode
  | 5 => some Challenge
  | 6 => some LiveAuthCommitment
  | 7 => some LiveAuthReveal
  | 8 => some LiveAuthProof
  | _ => none

theorem fromByte_eq_some {byte : UInt8} {kind : Kind} :
    fromByte byte = some kind ↔ byte = kind.byte := by
  constructor
  · intro hkind
    unfold fromByte at hkind
    split at hkind
    all_goals cases hkind
    all_goals
      apply UInt8.toNat_inj.1
      assumption
  · rintro rfl
    cases kind <;> rfl

end Kind

def ALPHABET : List UInt8 :=
  "ABCDEFGHIJKLMNOPQRSTUVWXYZabcdefghijklmnopqrstuvwxyz0123456789-_".toUTF8.data.toList

def base64Len (bytes : Nat) : Nat := (bytes * 4 + 2) / 3

def armoredLen (payloadLen : Nat) : Nat := PREFIX.length + base64Len (1 + payloadLen + CHECK_LEN)

-- The checksum trailer.
def check [Primitives] (kind : Kind) (payload : List UInt8) : List UInt8 :=
  let digest := ((((ByteHasher.new .Armor).absorb PREFIX).absorb [kind.byte]).absorb payload).finalize
  digest.toList.take CHECK_LEN

-- The characters of one group of up to three bytes. The mask keeps every index in range.
def groupChars (a : UInt8) (b c : Option UInt8) : List UInt8 :=
  let triple := (a.toNat <<< 16) ||| ((b.getD 0).toNat <<< 8) ||| (c.getD 0).toNat
  let chars := [ALPHABET[(triple >>> 18) &&& 63]?.getD 0, ALPHABET[(triple >>> 12) &&& 63]?.getD 0,
    ALPHABET[(triple >>> 6) &&& 63]?.getD 0, ALPHABET[triple &&& 63]?.getD 0]
  let count := 2 + b.isSome.toNat + c.isSome.toNat
  chars.take count

-- Writes some bytes at a position and moves past them.
def emit (out : List UInt8) (position : Nat) (bytes : List UInt8) : Option (Nat × List UInt8) :=
  (overwrite out position bytes).map fun out => (position + bytes.length, out)

-- The encoding loop, three bytes of the source a turn.
def armorLoop : List UInt8 → Nat → List UInt8 → Except (Fault ProtocolError) (Nat × List UInt8)
  | [], position, out => .ok (position, out)
  | [a], position, out => inBounds (emit out position (groupChars a none none))
  | [a, b], position, out => inBounds (emit out position (groupChars a (some b) none))
  | a :: b :: c :: rest, position, out => do
      let (position, out) ← inBounds (emit out position (groupChars a (some b) (some c)))
      armorLoop rest position out

-- Armors a payload into the buffer: the length written, and the buffer after.
def armor [Primitives] (kind : Kind) (payload out : List UInt8) :
    Except (Fault ProtocolError) (Nat × List UInt8) := do
  let total := armoredLen payload.length
  let target ← okOr .Malformed (slice out 0 total)
  let target ← inBounds (overwrite target 0 PREFIX)
  let trailer := check kind payload
  let (position, target) ← armorLoop (kind.byte :: (payload ++ trailer)) PREFIX.length target
  if position ≠ total then throw .Panic
  return (total, target ++ out.drop total)

def sextet (ch : UInt8) : Option Nat :=
  if 65 ≤ ch.toNat ∧ ch.toNat ≤ 90 then some (ch.toNat - 65)
  else if 97 ≤ ch.toNat ∧ ch.toNat ≤ 122 then some (ch.toNat - 97 + 26)
  else if 48 ≤ ch.toNat ∧ ch.toNat ≤ 57 then some (ch.toNat - 48 + 52)
  else if ch = 45 then some 62
  else if ch = 95 then some 63
  else none

-- The four tolerated quote pairs: straight double and single, smart double and single.
def PAIRS : List (List UInt8 × List UInt8) :=
  [([0x22], [0x22]), ([0x27], [0x27]), ([0xe2, 0x80, 0x9c], [0xe2, 0x80, 0x9d]),
    ([0xe2, 0x80, 0x98], [0xe2, 0x80, 0x99])]

-- Strips one surrounding pair of quotes, if present.
def unquote (text : List UInt8) : Option (List UInt8) :=
  match PAIRS.find? fun (opening, closing) =>
    decide (text.length ≥ opening.length + closing.length) && opening.isPrefixOf text &&
      closing.isSuffixOf text with
  | some (opening, closing) => slice text opening.length (text.length - closing.length)
  | none => some text

def isSpace (ch : UInt8) : Bool := ch = 0x20 || ch = 0x0a || ch = 0x0d || ch = 0x09

def trimWhitespace (text : List UInt8) : Option (List UInt8) :=
  let start := (text.findIdx? fun ch => !isSpace ch).getD text.length
  let stop := ((rposition text fun ch => !isSpace ch).map (· + 1)).getD start
  slice text start stop

-- `strip_prefix`
def stripPrefix (text : List UInt8) : Option (List UInt8) :=
  if PREFIX.isPrefixOf text then some (text.drop PREFIX.length) else none

-- The bytes a group of sextets holds whole: one fewer than there are sextets.
def groupBytes (group : List Nat) : List UInt8 :=
  let triple := ((group[0]?.getD 0) <<< 18) ||| ((group[1]?.getD 0) <<< 12) |||
    ((group[2]?.getD 0) <<< 6) ||| (group[3]?.getD 0)
  let bytes := [UInt8.ofNat (triple >>> 16), UInt8.ofNat (triple >>> 8), UInt8.ofNat triple]
  bytes.take (group.length - 1)

-- One group of up to four characters. Fewer than four mean that the text has ended.
def decodeGroup (chars : List UInt8) (written : Nat) (out : List UInt8) :
    Except (Fault ProtocolError) (Nat × List UInt8) := do
  let group ← okOr .Malformed (chars.mapM sextet)
  if group.length = 1 then throw (.Err .Malformed)
  okOr .Malformed (emit out written (groupBytes group))

-- The decoding loop, four characters a turn.
def decodeLoop : List UInt8 → Nat → List UInt8 → Except (Fault ProtocolError) (Nat × List UInt8)
  | [], written, out => .ok (written, out)
  | [p], written, out => decodeGroup [p] written out
  | [p, q], written, out => decodeGroup [p, q] written out
  | [p, q, r], written, out => decodeGroup [p, q, r] written out
  | p :: q :: r :: s :: rest, written, out => do
      let (written, out) ← decodeGroup [p, q, r, s] written out
      decodeLoop rest written out

-- The characters of a text behind its quotes and prefix, whitespace left out.
def armorChars (text : List UInt8) : Except (Fault ProtocolError) (List UInt8) := do
  let trimmed ← inBounds (trimWhitespace text)
  let text ← inBounds (unquote trimmed)
  let text ← inBounds (trimWhitespace text)
  let body ← okOr .Malformed (stripPrefix text)
  return body.filter fun ch => !isSpace ch

-- The artifact in the bytes written so far, its payload moved to the buffer's start.
def openArtifact [Primitives] (written : Nat) (out : List UInt8) :
    Except (Fault ProtocolError) (Kind × Nat × List UInt8) := do
  if written < 1 + CHECK_LEN then throw (.Err .Malformed)
  let payloadLen := written - 1 - CHECK_LEN
  let first ← inBounds out[0]?
  let kind ← okOr .Malformed (Kind.fromByte first)
  let payload ← inBounds (slice out 1 (1 + payloadLen))
  let expected := check kind payload
  let trailer ← inBounds (slice out (1 + payloadLen) written)
  if trailer ≠ expected then throw (.Err .Malformed)
  let moved ← inBounds (slice out 1 (1 + payloadLen))
  let out ← inBounds (overwrite out 0 moved)
  return (kind, payloadLen, out)

-- Decodes armored text into the buffer: the kind, the payload's length, and the buffer after.
def unarmor [Primitives] (text out : List UInt8) :
    Except (Fault ProtocolError) (Kind × Nat × List UInt8) := do
  let chars ← armorChars text
  let (written, out) ← decodeLoop chars 0 out
  openArtifact written out

end Nymora.Crypto.Armor
