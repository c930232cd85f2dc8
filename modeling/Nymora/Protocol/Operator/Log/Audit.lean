import Nymora.Crypto.Hash.Theorems
import Nymora.Crypto.Reference
import Nymora.Lib.HashChain
import Nymora.Protocol.Operator.Log.Theorems

namespace Nymora.Protocol.Operator

open Nymora.Core
open Nymora.Crypto

namespace LogEntry

def discriminant : LogEntry → UInt8
  | .ClassRoot _ _ _ => 0
  | .ExclusionRoots _ _ _ => 1
  | .PolicyChanged _ _ _ => 2
  | .Frozen _ => 3

def fields : LogEntry → List (List UInt8)
  | .ClassRoot epoch policyClass root =>
      [epoch.toLeBytes, policyClass.asBytes.toList, root.asBytes.toList]
  | .ExclusionRoots epoch revocation spend =>
      [epoch.toLeBytes, revocation.asBytes.toList, spend.asBytes.toList]
  | .PolicyChanged epoch policyClass version =>
      [epoch.toLeBytes, policyClass.asBytes.toList, LittleEndian.ofNat 8 version.toNat]
  | .Frozen epoch => [epoch.toLeBytes]

def parts (entry : LogEntry) : List (List UInt8) := [entry.discriminant] :: entry.fields

theorem stream_absorbInto (entry : LogEntry) (hasher : ByteHasher) :
    (entry.absorbInto hasher).stream = hasher.stream ++ entry.parts.flatMap framed := by
  cases entry <;> simp [absorbInto, parts, discriminant, fields]

theorem fits_parts (entry : LogEntry) : ∀ part ∈ entry.parts, Framing.Fits 8 part := by
  cases entry <;> simp [parts, discriminant, fields, Framing.Fits]

-- Where the fields of two variants coincide, the discriminant still tells them apart.
theorem parts_inj {entry other : LogEntry} (hparts : entry.parts = other.parts) :
    entry = other := by
  obtain ⟨hdiscriminant, hfields⟩ := List.cons.inj hparts
  cases entry <;> cases other <;> simp [discriminant] at hdiscriminant <;>
    simp only [fields, List.cons.injEq, and_true, Bytes.toList_inj, Digest.asBytes_inj,
      Epoch.toLeBytes_inj] at hfields
  case ClassRoot =>
    obtain ⟨rfl, rfl, rfl⟩ := hfields
    rfl
  case ExclusionRoots =>
    obtain ⟨rfl, rfl, rfl⟩ := hfields
    rfl
  case PolicyChanged =>
    obtain ⟨rfl, rfl, hversion⟩ := hfields
    rw [LittleEndian.ofNat_inj (UInt64.toNat_lt _) (UInt64.toNat_lt _)] at hversion
    rw [UInt64.toNat_inj.1 hversion]
  case Frozen => rw [hfields]

end LogEntry

-- What one step of the chain hashes.
def entryStream (prev : Bytes 32) (entry : LogEntry) : List UInt8 :=
  (entry.absorbInto ((ByteHasher.new .TransparencyEntry).absorb prev.toList)).stream

-- The frames behind the domain tag are read back as the previous head and the entry.
theorem entryStream_inj {prev other : Bytes 32} {entry later : LogEntry}
    (hstream : entryStream prev entry = entryStream other later) :
    prev = other ∧ entry = later := by
  unfold entryStream at hstream
  rw [LogEntry.stream_absorbInto, LogEntry.stream_absorbInto, ByteHasher.stream_absorb,
    ByteHasher.stream_absorb, List.append_assoc, List.append_assoc] at hstream
  have hframes := List.append_cancel_left hstream
  rw [framed_eq, framed_eq] at hframes
  obtain ⟨hprev, hparts⟩ := Framing.frame_append_inj (by simp [Framing.Fits])
    (by simp [Framing.Fits]) hframes
  refine ⟨Bytes.ext hprev, LogEntry.parts_inj ?_⟩
  exact Framing.flatMap_frame_inj (by decide) entry.fits_parts later.fits_parts hparts

section Views

variable [Primitives]

theorem recompute_eq_digests (chain : Bytes 32) (entries : List LogEntry) :
    recompute chain entries = HashChain.digests chainStep chain entries := by
  induction entries generalizing chain with
  | nil => rfl
  | cons entry entries ih => rw [recompute, HashChain.digests, ih]

-- Everything an auditor hashes to recompute the chain of a view.
def chainStreams (entries : List LogEntry) : List (List UInt8) :=
  (HashChain.links chainStep (Bytes.zero 32) entries).map fun link => entryStream link.1 link.2

-- Different previous heads or entries never chain to one head.
theorem chainStep_inj {prev other : Bytes 32} {entry later : LogEntry}
    (hfree : ByteHasher.CollisionFree [entryStream prev entry, entryStream other later])
    (hstep : chainStep prev entry = chainStep other later) : prev = other ∧ entry = later :=
  entryStream_inj (hfree _ (by simp) _ (by simp) hstep)

-- One recomputed digest in common, and two histories are one up to it.
theorem take_eq_of_recompute_eq {entries others : List LogEntry} {index : Nat}
    {digest : Bytes 32}
    (hfree : ByteHasher.CollisionFree (chainStreams entries ++ chainStreams others))
    (hdigest : (recompute (Bytes.zero 32) entries)[index]? = some digest)
    (hother : (recompute (Bytes.zero 32) others)[index]? = some digest) :
    entries.take (index + 1) = others.take (index + 1) := by
  rw [recompute_eq_digests] at hdigest hother
  refine (HashChain.take_eq_of_digest_eq ?_ hdigest hother).2
  intro link hlink later hlater hstep
  have hhashed : ∀ pair ∈ HashChain.links chainStep (Bytes.zero 32) entries ++
      HashChain.links chainStep (Bytes.zero 32) others,
      entryStream pair.1 pair.2 ∈ chainStreams entries ++ chainStreams others := by
    intro pair hpair
    rw [chainStreams, chainStreams, ← List.map_append]
    exact List.mem_map.2 ⟨pair, hpair, rfl⟩
  obtain ⟨hprev, hentry⟩ := entryStream_inj
    (hfree _ (hhashed link hlink) _ (hhashed later hlater) hstep)
  exact Prod.ext hprev hentry

-- A view an auditor accepts under a log key, with a head for each entry.
structure Accepted (publicKey : List UInt8) (entries : List LogEntry)
    (heads : List SignedHead) : Prop where
  verified : verifyLog entries heads publicKey = true
  covered : ∀ index < entries.length, ∃ head ∈ heads, head.sequence = index

variable {publicKey : List UInt8} {entries others : List LogEntry} {heads otherHeads : List SignedHead}

theorem Accepted.head (hview : Accepted publicKey entries heads) {index : Nat}
    (hindex : index < entries.length) :
    ∃ head ∈ heads, head.sequence = index ∧ headVerifies head publicKey = true ∧
      (recompute (Bytes.zero 32) entries)[index]? = some head.head := by
  obtain ⟨head, hhead, rfl⟩ := hview.covered index hindex
  have hverified := hview.verified
  unfold verifyLog at hverified
  have hchecked := List.all_eq_true.1 hverified head hhead
  rw [Bool.and_eq_true, beq_iff_eq] at hchecked
  exact ⟨head, hhead, rfl, hchecked.2, hchecked.1⟩

-- A log that is kept as it is published is a view an auditor accepts.
theorem TransparencyLog.Chained.accepted {log : TransparencyLog} (hchained : log.Chained)
    (hcorrect : Signature.Correct) : Accepted log.publicKey.toList log.entries log.heads where
  verified := hchained.verifyLog hcorrect
  covered index hindex := by
    have hsequence : index ∈ log.heads.map SignedHead.sequence := by
      rw [hchained.sequences]
      exact List.mem_range.2 hindex
    exact List.mem_map.1 hsequence

-- At every sequence number both views reach, they agree up to it or their heads are a fork.
theorem Accepted.fork_or_agree (hview : Accepted publicKey entries heads)
    (hother : Accepted publicKey others otherHeads)
    (hfree : ByteHasher.CollisionFree (chainStreams entries ++ chainStreams others))
    {index : Nat} (hindex : index < entries.length) (hreached : index < others.length) :
    (∃ a ∈ heads, ∃ b ∈ otherHeads, equivocation a b publicKey = true) ∨
      entries.take (index + 1) = others.take (index + 1) := by
  obtain ⟨head, hhead, hsequence, hsigned, hdigest⟩ := hview.head hindex
  obtain ⟨later, hlater, hsame, hlaterSigned, hlaterDigest⟩ := hother.head hreached
  by_cases hheads : head.head = later.head
  · right
    rw [← hheads] at hlaterDigest
    exact take_eq_of_recompute_eq hfree hdigest hlaterDigest
  · left
    refine ⟨head, hhead, later, hlater, ?_⟩
    simp [equivocation, hsequence, hsame, hheads, hsigned, hlaterSigned]

theorem equivocation_symm {a b : SignedHead} (hfork : equivocation a b publicKey = true) :
    equivocation b a publicKey = true := by
  simp only [equivocation, Bool.and_eq_true, beq_iff_eq, bne_iff_ne] at hfork ⊢
  obtain ⟨⟨⟨hsequence, hheads⟩, hfirst⟩, hsecond⟩ := hfork
  exact ⟨⟨⟨hsequence.symm, hheads.symm⟩, hsecond⟩, hfirst⟩

-- Agreement up to the end of the shorter view is agreement on all of it.
theorem Accepted.fork_or_prefix (hview : Accepted publicKey entries heads)
    (hother : Accepted publicKey others otherHeads)
    (hfree : ByteHasher.CollisionFree (chainStreams entries ++ chainStreams others))
    (hlength : entries.length ≤ others.length) :
    (∃ a ∈ heads, ∃ b ∈ otherHeads, equivocation a b publicKey = true) ∨ entries <+: others := by
  by_cases hempty : entries.length = 0
  · right
    rw [List.eq_nil_of_length_eq_zero hempty]
    exact List.nil_prefix
  · have hlast : entries.length - 1 + 1 = entries.length := by omega
    have hplaced : entries.length - 1 < entries.length := by omega
    rcases hview.fork_or_agree hother hfree hplaced (by omega) with hfork | hagree
    · exact Or.inl hfork
    · right
      rw [hlast, List.take_length] at hagree
      rw [hagree]
      exact List.take_prefix _ _

-- Audit soundness: two accepted views are one history cut at two points, or hold the evidence of
-- a fork between them, and already where one entry differs. An entry never passes for one of
-- another variant.
theorem divergent_views_expose_a_fork
    (hfree : ByteHasher.CollisionFree (chainStreams entries ++ chainStreams others))
    (hview : Accepted publicKey entries heads) (hother : Accepted publicKey others otherHeads) :
    ((∃ a ∈ heads, ∃ b ∈ otherHeads, equivocation a b publicKey = true) ∨
      entries <+: others ∨ others <+: entries) ∧
    (∀ (index : Nat) (entry other : LogEntry), entries[index]? = some entry →
      others[index]? = some other → entry ≠ other →
        ∃ a ∈ heads, ∃ b ∈ otherHeads, equivocation a b publicKey = true) ∧
    ∀ (prev chain : Bytes 32) (entry other : LogEntry),
      ByteHasher.CollisionFree [entryStream prev entry, entryStream chain other] →
        entry.discriminant ≠ other.discriminant → chainStep prev entry ≠ chainStep chain other := by
  refine ⟨?_, ?_, ?_⟩
  · rcases Nat.le_total entries.length others.length with hshorter | hlonger
    · exact (hview.fork_or_prefix hother hfree hshorter).imp_right Or.inl
    · have hswapped : ByteHasher.CollisionFree (chainStreams others ++ chainStreams entries) :=
        hfree.mono fun stream hstream => by
          rw [List.mem_append] at hstream ⊢
          exact hstream.symm
      rcases hother.fork_or_prefix hview hswapped hlonger with ⟨a, ha, b, hb, hfork⟩ | hprefixed
      · exact Or.inl ⟨b, hb, a, ha, equivocation_symm hfork⟩
      · exact Or.inr (Or.inr hprefixed)
  · intro index entry other hentry hlater hdiffers
    obtain ⟨hindex, rfl⟩ := List.getElem?_eq_some_iff.1 hentry
    obtain ⟨hreached, rfl⟩ := List.getElem?_eq_some_iff.1 hlater
    rcases hview.fork_or_agree hother hfree hindex hreached with hfork | hagree
    · exact hfork
    · have hsame := congrArg (·[index]?) hagree
      simp only [List.getElem?_take_of_lt (Nat.lt_succ_self index), hentry, hlater,
        Option.some_inj] at hsame
      exact absurd hsame hdiffers
  · intro prev chain entry other hstreams hvariants hstep
    exact hvariants (congrArg LogEntry.discriminant (chainStep_inj hstreams hstep).2)

end Views

end Nymora.Protocol.Operator

namespace Nymora.Protocol.Operator.TransparencyLog.Sample

open Nymora.Core
open Nymora.Crypto
open scoped Nymora.Crypto.Reference

-- One log forked behind its first entry: the operator shows one auditor a class root and a policy
-- change, and another a different root and a freeze.
def founded : TransparencyLog :=
  (new (Bytes.zero 32)).publish [.ExclusionRoots (.new 0) (.fromBytes (Bytes.zero 32))
    (.fromBytes (Bytes.zero 32))]

def members : PolicyClass := .fromBytes (Bytes.replicate 32 1)

def shown : TransparencyLog :=
  founded.publish [.ClassRoot (.new 1) members (.fromBytes (Bytes.replicate 32 2)),
    .PolicyChanged (.new 1) members 1]

def other : TransparencyLog :=
  founded.publish [.ClassRoot (.new 1) members (.fromBytes (Bytes.replicate 32 3)),
    .PolicyChanged (.new 1) members 1, .Frozen (.new 2)]

theorem chained_founded : founded.Chained := (chained_new _).publish _

theorem accepted_shown : Accepted shown.publicKey.toList shown.entries shown.heads :=
  (chained_founded.publish _).accepted Reference.signature_correct

theorem accepted_other : Accepted shown.publicKey.toList other.entries other.heads := by
  have hkey : shown.publicKey = other.publicKey := by
    rw [publicKey, publicKey, shown, other, (extends_publish founded _).seed,
      (extends_publish founded _).seed]
  rw [hkey]
  exact (chained_founded.publish _).accepted Reference.signature_correct

-- Neither view continues the other, and their second entries already show the fork.
theorem divergent_views_expose_a_fork_frozen :
    (∃ a ∈ shown.heads, ∃ b ∈ other.heads,
      equivocation a b shown.publicKey.toList = true) ∧
    shown.entries[0]? = other.entries[0]? ∧ ¬ shown.entries <+: other.entries := by
  refine ⟨(divergent_views_expose_a_fork (by decide +kernel) accepted_shown accepted_other).2.1 1
    _ _ rfl rfl ?_, rfl, ?_⟩
  · decide +kernel
  · decide +kernel

end Nymora.Protocol.Operator.TransparencyLog.Sample
