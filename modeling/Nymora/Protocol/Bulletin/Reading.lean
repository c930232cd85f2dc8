import Nymora.Core.Wire
import Nymora.Protocol.Bulletin.Theorems

namespace Nymora.Protocol

open Nymora.Core
open Nymora.Crypto
open Machine
open Buffers
open Codec

-- `take_entries` on a machine: the count becomes a `usize` and the product is checked.
def takeEntriesOn (host : Host) (count : UInt64) (width : Nat) :
    Reader ProtocolError (List UInt8) := do
  let total ← Wire.orMalformed
    ((host.usizeFrom count).bind fun count => host.checkedMul count width)
  take .Malformed total

-- `open_sealed` with its two slices.
def openSealedOn [Primitives] (key : Bytes 32) (agora : AgoraId) (epoch : Epoch)
    (buffer : List UInt8) : Except (Fault ProtocolError) (List UInt8) := do
  let split ← Wire.orMalformed (if Inbox.SEAL_TAG_LEN ≤ buffer.length then
    some (buffer.length - Inbox.SEAL_TAG_LEN) else none)
  let ciphertext ← inBounds (slice buffer 0 split)
  let tag ← inBounds (slice buffer split buffer.length)
  let tag ← Wire.orMalformed (Bytes.ofList? 16 tag)
  lift (Inbox.openInPlace key (Inbox.associatedData agora epoch).toList ciphertext tag)

namespace BodyView

def readOn (host : Host) (epoch : Epoch) : Reader ProtocolError BodyView := do
  let bodyEpoch := Epoch.new (← Wire.takeU64)
  if bodyEpoch ≠ epoch then throw (.Err .Malformed)
  let classes ← Wire.takeU64
  let classRootBytes ← takeEntriesOn host classes (2 * DIGEST_LEN)
  let revocationRoot : Root := .fromBytes (← Wire.takeDigest)
  let spendRoot : Root := .fromBytes (← Wire.takeDigest)
  let revokedCount ← Wire.takeU64
  let revokedBytes ← takeEntriesOn host revokedCount DIGEST_LEN
  let spentCount ← Wire.takeU64
  let spentBytes ← takeEntriesOn host spentCount DIGEST_LEN
  let tagKey : TagKey := .new (← Wire.takeDigest)
  let fetchKey : FetchKey := .new (← Wire.takeDigest)
  let rest ← get
  if rest ≠ [] then throw (.Err .Malformed)
  return { epoch := bodyEpoch, classRootBytes, revocationRoot, spendRoot, revokedBytes,
           spentBytes, tagKey, fetchKey }

-- `BodyView::open` on a machine.
def openOn [Primitives] (host : Host) (bodyKey : BodyKey) (agora : AgoraId) (epoch : Epoch)
    (buffer : List UInt8) : Except (Fault ProtocolError) BodyView := do
  let plain ← openSealedOn bodyKey.expose agora epoch buffer
  decodeWith (readOn host epoch) plain

end BodyView

-- Both slices are in bounds.
theorem openSealedOn_eq [Primitives] (key : Bytes 32) (agora : AgoraId) (epoch : Epoch)
    (buffer : List UInt8) :
    openSealedOn key agora epoch buffer = lift (openSealed key agora epoch buffer) := by
  unfold openSealedOn openSealed
  by_cases hlength : Inbox.SEAL_TAG_LEN ≤ buffer.length
  · have hciphertext : slice buffer 0 (buffer.length - Inbox.SEAL_TAG_LEN) =
        some (buffer.take (buffer.length - Inbox.SEAL_TAG_LEN)) :=
      if_pos ⟨Nat.zero_le _, Nat.sub_le _ _⟩
    have htag : slice buffer (buffer.length - Inbox.SEAL_TAG_LEN) buffer.length =
        some (buffer.drop (buffer.length - Inbox.SEAL_TAG_LEN)) := by
      rw [slice, if_pos ⟨Nat.sub_le _ _, Nat.le_refl _⟩, List.take_length]
    rw [if_pos hlength, if_neg (Nat.not_lt.2 hlength)]
    simp only [Wire.orMalformed, okOr, bind, Except.bind, hciphertext, htag, inBounds]
    cases Bytes.ofList? 16 (buffer.drop (buffer.length - Inbox.SEAL_TAG_LEN)) <;> rfl
  · rw [if_neg hlength, if_pos (Nat.lt_of_not_le hlength)]
    rfl

theorem openSealed_total [Primitives] (key : Bytes 32) (agora : AgoraId) (epoch : Epoch)
    (buffer : List UInt8) : openSealed key agora epoch buffer = .error .Malformed ∨
      ∃ plain, openSealed key agora epoch buffer = .ok plain := by
  unfold openSealed
  by_cases hlength : buffer.length < Inbox.SEAL_TAG_LEN
  · rw [if_pos hlength]
    exact .inl rfl
  · rw [if_neg hlength]
    cases htag : Bytes.ofList? 16 (buffer.drop (buffer.length - Inbox.SEAL_TAG_LEN)) with
    | none =>
        simp only [htag]
        exact .inl rfl
    | some tag =>
        simp only [htag, Inbox.openInPlace]
        cases Primitives.chacha20Poly1305Decrypt key (Inbox.associatedData agora epoch).toList
            (buffer.take (buffer.length - Inbox.SEAL_TAG_LEN)) tag with
        | none => exact .inl rfl
        | some plain => exact .inr ⟨plain, rfl⟩

-- A table of whole entries that the machine can address, and how many there are.
structure Table (host : Host) (width : Nat) (bytes : List UInt8) : Prop where
  whole : width ∣ bytes.length
  addressed : bytes.length < host.limit

def entryCount (width : Nat) (bytes : List UInt8) : UInt64 := .ofNat (bytes.length / width)

variable {host : Host} {width : Nat}

theorem Table.toNat_entryCount {bytes : List UInt8} (htable : Table host width bytes) :
    (entryCount width bytes).toNat = bytes.length / width := by
  have hlimit := host.limit_le
  have haddressed := htable.addressed
  have hcount : bytes.length / width < 2 ^ 64 := by
    have hle := Nat.div_le_self bytes.length width
    omega
  exact UInt64.toNat_ofNat_of_lt' hcount

theorem Table.length_eq {bytes : List UInt8} (htable : Table host width bytes) :
    bytes.length = (entryCount width bytes).toNat * width := by
  rw [htable.toNat_entryCount, Nat.div_mul_cancel htable.whole]

theorem entryCount_eq {bytes : List UInt8} {count : UInt64} (hwidth : 0 < width)
    (hlength : bytes.length = count.toNat * width) : entryCount width bytes = count := by
  rw [entryCount, hlength, Nat.mul_div_cancel _ hwidth, UInt64.ofNat_toNat]

theorem table_of_length {bytes : List UInt8} {count : UInt64}
    (hlength : bytes.length = count.toNat * width) (hbound : bytes.length < host.limit) :
    Table host width bytes := ⟨⟨count.toNat, by rw [hlength, Nat.mul_comm]⟩, hbound⟩

-- Bytes that are whole entries are the encodings of as many values, laid end to end.
theorem exists_flatMap {α : Type} {encode : α → List UInt8}
    (hsurjective : ∀ bytes, bytes.length = width → ∃ value, encode value = bytes) (count : Nat)
    (bytes : List UInt8) (hlength : bytes.length = count * width) :
    ∃ values : List α, values.flatMap encode = bytes := by
  induction count generalizing bytes with
  | zero =>
      rw [Nat.zero_mul, List.length_eq_zero_iff] at hlength
      exact ⟨[], hlength.symm⟩
  | succ count ih =>
      rw [Nat.succ_mul] at hlength
      obtain ⟨value, hvalue⟩ := hsurjective (bytes.take width)
        (by rw [List.length_take]; omega)
      obtain ⟨values, hvalues⟩ := ih (bytes.drop width) (by rw [List.length_drop]; omega)
      refine ⟨value :: values, ?_⟩
      rw [List.flatMap_cons, hvalue, hvalues, List.take_append_drop]

theorem parses_takeEntriesOn (hwidth : 0 < width) (count : UInt64) :
    Parses .Malformed (takeEntriesOn host count width) id
      (fun bytes => bytes.length = count.toNat * width ∧ bytes.length < host.limit)
      fun _ => True := by
  by_cases hproduct : count.toNat * width < host.limit
  · have hcount : count.toNat < host.limit :=
      Nat.lt_of_le_of_lt (Nat.le_mul_of_pos_right _ hwidth) hproduct
    have htotal : (host.usizeFrom count).bind (fun count => host.checkedMul count width) =
        some (count.toNat * width) := by
      rw [Host.usizeFrom_eq_some.2 ⟨rfl, hcount⟩, Option.bind_some, Host.checkedMul,
        if_pos hproduct]
    have hreader : takeEntriesOn host count width = take .Malformed (count.toNat * width) := by
      unfold takeEntriesOn
      rw [htotal]
      rfl
    rw [hreader]
    refine (parses_take ProtocolError.Malformed _).congr (fun _ _ => rfl) ?_
    intro bytes
    exact and_iff_left_of_imp fun hlength => by omega
  · have htotal : (host.usizeFrom count).bind (fun count => host.checkedMul count width) = none := by
      unfold Host.usizeFrom
      split
      · exact if_neg hproduct
      · rfl
    refine parses_refusal ?_ ?_
    · intro input
      unfold takeEntriesOn
      rw [htotal]
      rfl
    · rintro bytes ⟨hlength, haddressed⟩
      omega

namespace BodyView

-- The bytes of a layout that reads as a view.
def layout (view : BodyView) : List UInt8 :=
  LittleEndian.ofNat 8 view.epoch.u64.toNat ++
    (LittleEndian.ofNat 8 (entryCount (2 * DIGEST_LEN) view.classRootBytes).toNat ++
      (view.classRootBytes ++ (view.revocationRoot.asBytes.toList ++
        (view.spendRoot.asBytes.toList ++
          (LittleEndian.ofNat 8 (entryCount DIGEST_LEN view.revokedBytes).toNat ++
            (view.revokedBytes ++
              (LittleEndian.ofNat 8 (entryCount DIGEST_LEN view.spentBytes).toNat ++
                (view.spentBytes ++ (view.tagKey.expose.toList ++
                  (view.fetchKey.expose.toList ++ []))))))))))

-- What a view of one epoch holds: three whole tables.
structure Reads (host : Host) (epoch : Epoch) (view : BodyView) : Prop where
  epoch_eq : view.epoch = epoch
  classes : Table host (2 * DIGEST_LEN) view.classRootBytes
  revoked : Table host DIGEST_LEN view.revokedBytes
  spent : Table host DIGEST_LEN view.spentBytes

theorem parses_readOn (host : Host) (epoch : Epoch) :
    Parses .Malformed (readOn host epoch) layout (Reads host epoch) (· = []) := by
  refine Parses.bind (fun view : BodyView => view.epoch.u64) Wire.parses_takeU64
    (fun _ _ => trivial) ?_
  intro bodyEpoch _
  by_cases hepoch : Epoch.new bodyEpoch = epoch
  · rw [if_neg (not_not.2 hepoch)]
    refine Parses.bind (fun view : BodyView => entryCount (2 * DIGEST_LEN) view.classRootBytes)
      Wire.parses_takeU64 (fun _ _ => trivial) ?_
    intro classes _
    refine Parses.bind classRootBytes (parses_takeEntriesOn (by decide) classes) ?_ ?_
    · rintro view ⟨⟨hreads, _⟩, rfl⟩
      exact ⟨hreads.classes.length_eq, hreads.classes.addressed⟩
    rintro classRootBytes ⟨hclasses, hclassBound⟩
    refine Parses.bind (fun view : BodyView => view.revocationRoot.asBytes) Wire.parses_takeDigest
      (fun _ _ => trivial) ?_
    intro revocationRoot _
    refine Parses.bind (fun view : BodyView => view.spendRoot.asBytes) Wire.parses_takeDigest
      (fun _ _ => trivial) ?_
    intro spendRoot _
    refine Parses.bind (fun view : BodyView => entryCount DIGEST_LEN view.revokedBytes)
      Wire.parses_takeU64 (fun _ _ => trivial) ?_
    intro revokedCount _
    refine Parses.bind revokedBytes (parses_takeEntriesOn (by decide) revokedCount) ?_ ?_
    · rintro view ⟨⟨⟨⟨⟨⟨hreads, _⟩, _⟩, _⟩, _⟩, _⟩, rfl⟩
      exact ⟨hreads.revoked.length_eq, hreads.revoked.addressed⟩
    rintro revokedBytes ⟨hrevoked, hrevokedBound⟩
    refine Parses.bind (fun view : BodyView => entryCount DIGEST_LEN view.spentBytes)
      Wire.parses_takeU64 (fun _ _ => trivial) ?_
    intro spentCount _
    refine Parses.bind spentBytes (parses_takeEntriesOn (by decide) spentCount) ?_ ?_
    · rintro view ⟨⟨⟨⟨⟨⟨⟨⟨hreads, _⟩, _⟩, _⟩, _⟩, _⟩, _⟩, _⟩, rfl⟩
      exact ⟨hreads.spent.length_eq, hreads.spent.addressed⟩
    rintro spentBytes ⟨hspent, hspentBound⟩
    refine Parses.bind (fun view : BodyView => view.tagKey.expose) Wire.parses_takeDigest
      (fun _ _ => trivial) ?_
    intro tagKey _
    refine Parses.bind (fun view : BodyView => view.fetchKey.expose) Wire.parses_takeDigest
      (fun _ _ => trivial) ?_
    intro fetchKey _
    refine parses_finish fun view rest => ?_
    constructor
    · rintro ⟨rfl, hend⟩
      refine ⟨⟨⟨⟨⟨⟨⟨⟨⟨⟨⟨⟨?_, Epoch.new_eq_iff.1 rfl⟩, entryCount_eq (by decide) hclasses⟩, rfl⟩,
        rfl⟩, rfl⟩, entryCount_eq (by decide) hrevoked⟩, rfl⟩, entryCount_eq (by decide) hspent⟩,
        rfl⟩, rfl⟩, rfl⟩, not_not.1 hend⟩
      exact ⟨hepoch, table_of_length hclasses hclassBound, table_of_length hrevoked hrevokedBound,
        table_of_length hspent hspentBound⟩
    · rintro ⟨⟨⟨⟨⟨⟨⟨⟨⟨⟨⟨⟨_, hsame⟩, _⟩, rfl⟩, rfl⟩, rfl⟩, _⟩, rfl⟩, _⟩, rfl⟩, rfl⟩, rfl⟩, rfl⟩
      rw [Epoch.new_eq_iff.2 hsame]
      exact ⟨rfl, not_not.2 rfl⟩
  · rw [if_pos hepoch]
    refine parses_refusal (fun _ => rfl) ?_
    rintro view ⟨hreads, hsame⟩
    exact hepoch ((Epoch.new_eq_iff.2 hsame).trans hreads.epoch_eq)

end BodyView

section Agreement

-- A reader on a machine and the plain function of the bytes left, step by step.
private theorem run'_bind {α β γ : Type} {reader : Reader ProtocolError α}
    {next : α → Reader ProtocolError γ} {convert : β → α} {input : List UInt8}
    {result : Except ProtocolError (β × List UInt8)}
    {plainNext : β × List UInt8 → Except ProtocolError γ}
    (hreader : reader.run input = (lift result).map fun read => (convert read.1, read.2))
    (hnext : ∀ value rest, result = .ok (value, rest) →
      (next (convert value)).run' rest = lift (plainNext (value, rest))) :
    (reader >>= next).run' input = lift (result >>= plainNext) := by
  have hrun : (reader >>= next).run' input =
      (reader.run input >>= fun read => (next read.1).run read.2).map Prod.fst := rfl
  rw [hrun, hreader]
  cases hresult : result with
  | error error => rfl
  | ok read => exact hnext read.1 read.2 hresult

private theorem run_takeArray (width : Nat) (input : List UInt8) :
    (Wire.takeArray width).run input =
      match Bytes.ofList? width (input.take width) with
      | some bytes => .ok (bytes, input.drop width)
      | none => .error (.Err .Malformed) := by
  rw [Wire.takeArray, StateT.run_bind, run_take]
  by_cases hlength : width ≤ input.length
  · have harray : Bytes.ofList? width (input.take width) =
        some ⟨input.take width, List.length_take_of_le hlength⟩ :=
      Bytes.ofList?_eq_some.2 rfl
    rw [if_pos hlength, harray]
    change StateT.run (liftM (Wire.orMalformed (Bytes.ofList? width (input.take width))) :
      Reader ProtocolError (Bytes width)) (input.drop width) = _
    rw [harray]
    rfl
  · have hnone : Bytes.ofList? width (input.take width) = none :=
      dif_neg (by rw [List.length_take]; omega)
    rw [if_neg hlength, hnone]
    rfl

private theorem run_takeDigest (input : List UInt8) : Wire.takeDigest.run input =
    (lift (takeDigest input)).map fun read => (id read.1, read.2) := by
  rw [Wire.takeDigest, run_takeArray, takeDigest]
  cases Bytes.ofList? 32 (input.take DIGEST_LEN) <;> rfl

private theorem run_takeU64 (input : List UInt8) : Wire.takeU64.run input =
    (lift (takeU64 input)).map fun read => (UInt64.ofNat read.1, read.2) := by
  rw [Wire.takeU64, StateT.run_bind, run_takeArray, takeU64]
  by_cases hlength : input.length < 8
  · have hnone : Bytes.ofList? 8 (input.take 8) = none :=
      dif_neg (by rw [List.length_take]; omega)
    rw [if_pos hlength, hnone]
    rfl
  · have harray : Bytes.ofList? 8 (input.take 8) =
        some ⟨input.take 8, List.length_take_of_le (by omega)⟩ := Bytes.ofList?_eq_some.2 rfl
    rw [if_neg hlength, harray]
    rfl

private theorem run_takeEntriesOn (host : Host) {input : List UInt8} {count width : Nat}
    (hcount : count < 2 ^ 64) (hwidth : 0 < width) (hinput : input.length < host.limit) :
    (takeEntriesOn host (.ofNat count) width).run input =
      (lift (takeEntries input count width)).map fun read => (id read.1, read.2) := by
  have hvalue : (UInt64.ofNat count).toNat = count := UInt64.toNat_ofNat_of_lt' hcount
  have hlimit := host.limit_le
  unfold takeEntriesOn takeEntries
  by_cases hfits : count * width ≤ input.length
  · have hle : count ≤ count * width := Nat.le_mul_of_pos_right _ hwidth
    have htotal : (host.usizeFrom (.ofNat count)).bind (fun count => host.checkedMul count width) =
        some (count * width) := by
      rw [Host.usizeFrom_eq_some.2 ⟨hvalue, by omega⟩, Option.bind_some, Host.checkedMul,
        if_pos (by omega)]
    rw [htotal, if_neg (by omega)]
    change (take ProtocolError.Malformed (count * width)).run input = _
    rw [run_take, if_pos hfits]
    rfl
  · rw [if_pos (.inr (by omega))]
    cases htotal : (host.usizeFrom (.ofNat count)).bind fun count => host.checkedMul count width with
    | none => rfl
    | some total =>
        obtain ⟨size, hsize, hproduct⟩ := Option.bind_eq_some_iff.1 htotal
        obtain ⟨rfl, _⟩ := Host.usizeFrom_eq_some.1 hsize
        unfold Host.checkedMul at hproduct
        split at hproduct
        · obtain rfl := Option.some.inj hproduct
          rw [hvalue]
          change (take ProtocolError.Malformed (count * width)).run input = _
          rw [run_take, if_neg hfits]
          rfl
        · cases hproduct

-- What the plain readers leave is no longer than what they were given.
private theorem rest_of_takeDigest {input rest : List UInt8} {bytes : Bytes 32}
    (hread : takeDigest input = .ok (bytes, rest)) : rest.length ≤ input.length := by
  unfold takeDigest at hread
  split at hread
  · cases hread
    rw [List.length_drop]
    omega
  · cases hread

private theorem rest_of_takeU64 {input rest : List UInt8} {value : Nat}
    (hread : takeU64 input = .ok (value, rest)) :
    rest.length ≤ input.length ∧ value < 2 ^ 64 := by
  unfold takeU64 at hread
  split at hread
  · cases hread
  · cases hread
    have hlt := LittleEndian.toNat_lt (input.take 8)
    rw [List.length_take_of_le (by omega)] at hlt
    rw [List.length_drop]
    exact ⟨by omega, hlt⟩

private theorem rest_of_takeEntries {input bytes rest : List UInt8} {count width : Nat}
    (hread : takeEntries input count width = .ok (bytes, rest)) :
    rest.length ≤ input.length := by
  simp only [takeEntries] at hread
  split at hread
  · cases hread
  · cases hread
    rw [List.length_drop]
    omega

-- On a plaintext the machine can hold, the layout is read as `parse` reads it.
theorem BodyView.decodeWith_readOn {host : Host} (epoch : Epoch) {plain : List UInt8}
    (hplain : plain.length < host.limit) :
    decodeWith (readOn host epoch) plain = lift (parse epoch plain) := by
  unfold readOn parse decodeWith
  refine run'_bind (run_takeU64 plain) ?_
  intro bodyEpoch rest hread
  obtain ⟨hrest, hvalue⟩ := rest_of_takeU64 hread
  have hget : (Epoch.new (.ofNat bodyEpoch)).get = bodyEpoch := UInt64.toNat_ofNat_of_lt' hvalue
  by_cases hepoch : bodyEpoch = epoch.get
  · have hsame : Epoch.new (.ofNat bodyEpoch) = epoch := Epoch.ext (hget.trans hepoch)
    simp only [hepoch, ne_eq, not_true_eq_false, if_false]
    rw [hepoch] at hsame
    simp only [hsame, not_true_eq_false, if_false]
    refine run'_bind (run_takeU64 rest) ?_
    intro classes afterCount hclasses
    obtain ⟨hafterCount, hcount⟩ := rest_of_takeU64 hclasses
    refine run'_bind (run_takeEntriesOn host hcount (by decide) (by omega)) ?_
    intro classRootBytes afterClasses hentries
    have hafterClasses : afterClasses.length ≤ afterCount.length :=
      rest_of_takeEntries hentries
    refine run'_bind (run_takeDigest afterClasses) ?_
    intro revocationRoot afterRevocation hrevocation
    have hafterRevocation : afterRevocation.length ≤ afterClasses.length :=
      rest_of_takeDigest hrevocation
    refine run'_bind (run_takeDigest afterRevocation) ?_
    intro spendRoot afterSpend hspend
    have hafterSpend : afterSpend.length ≤ afterRevocation.length :=
      rest_of_takeDigest hspend
    refine run'_bind (run_takeU64 afterSpend) ?_
    intro revokedCount afterRevokedCount hrevokedCount
    obtain ⟨(hafterRevokedCount : afterRevokedCount.length ≤ afterSpend.length), hrevoked⟩ :=
      rest_of_takeU64 hrevokedCount
    refine run'_bind (run_takeEntriesOn host hrevoked (by decide) (by omega)) ?_
    intro revokedBytes afterRevoked hrevokedBytes
    have hafterRevoked : afterRevoked.length ≤ afterRevokedCount.length :=
      rest_of_takeEntries hrevokedBytes
    refine run'_bind (run_takeU64 afterRevoked) ?_
    intro spentCount afterSpentCount hspentCount
    obtain ⟨(hafterSpentCount : afterSpentCount.length ≤ afterRevoked.length), hspent⟩ :=
      rest_of_takeU64 hspentCount
    refine run'_bind (run_takeEntriesOn host hspent (by decide) (by omega)) ?_
    intro spentBytes afterSpent hspentBytes
    refine run'_bind (run_takeDigest afterSpent) ?_
    intro tagKey afterTag htag
    refine run'_bind (run_takeDigest afterTag) ?_
    intro fetchKey last hfetch
    cases last with
    | nil => rfl
    | cons byte last => rfl
  · have hother : Epoch.new (.ofNat bodyEpoch) ≠ epoch := by
      rintro rfl
      exact hepoch hget.symm
    simp only [ne_eq, hother, hepoch, not_false_eq_true, if_true]
    rfl

-- On a machine that holds what a buffer opens to, a body is opened as `openBody` opens it.
theorem BodyView.openOn_eq_openBody [Primitives] {host : Host} {bodyKey : BodyKey}
    {agora : AgoraId} {epoch : Epoch} {buffer : List UInt8}
    (hplain : ∀ plain, openSealed bodyKey.expose agora epoch buffer = .ok plain →
      plain.length < host.limit) :
    openOn host bodyKey agora epoch buffer = lift (openBody bodyKey agora epoch buffer) := by
  rw [openOn, openBody, openSealedOn_eq]
  cases hopen : openSealed bodyKey.expose agora epoch buffer with
  | error error => rfl
  | ok plain => exact decodeWith_readOn epoch (hplain plain hopen)

end Agreement

end Nymora.Protocol
