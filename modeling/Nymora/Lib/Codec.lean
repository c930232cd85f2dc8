import Nymora.Lib.Buffers
import Nymora.Lib.Machine

namespace Codec

open Machine
open Buffers

variable {ε α β γ : Type}

-- A reader moves a cursor over the bytes that are left to read.
abbrev Reader (ε α : Type) := StateT (List UInt8) (Except (Fault ε)) α

-- A writer holds its position in the buffer and the buffer.
abbrev Writer (ε α : Type) := StateT (Nat × List UInt8) (Except (Fault ε)) α

-- `split_first`
def splitFirst (error : ε) : Reader ε UInt8 := do
  match ← get with
  | [] => throw (.Err error)
  | first :: tail =>
      set tail
      return first

-- `rest.get(..count).ok_or(error)?`, then `*rest = &rest[count..]`.
def take (error : ε) (count : Nat) : Reader ε (List UInt8) := do
  let rest ← get
  let taken ← okOr error (slice rest 0 count)
  let rest ← (inBounds (slice rest count rest.length) : Except (Fault ε) _)
  set rest
  return taken

-- `out[at..at + bytes.len()].copy_from_slice(bytes)`, then `at += bytes.len()`.
def put (host : Host) (bytes : List UInt8) : Writer ε Unit := do
  let (position, out) ← get
  let stop ← (host.add position bytes.length : Except (Fault ε) _)
  let target ← (inBounds (slice out position stop) : Except (Fault ε) _)
  if target.length ≠ bytes.length then throw .Panic
  let out ← (inBounds (overwrite out position bytes) : Except (Fault ε) _)
  let position ← (host.add position bytes.length : Except (Fault ε) _)
  set (position, out)

-- Writes into the first `total` bytes of a buffer, which must have that many.
def encodeWith (error : ε) (total : Except (Fault ε) Nat) (writer : Writer ε Unit)
    (out : List UInt8) : Except (Fault ε) (Nat × List UInt8) := do
  let total ← total
  let target ← okOr error (slice out 0 total)
  let (_, _, target) ← writer.run (0, target)
  return (total, target ++ out.drop total)

-- Reads a value from the whole of its input.
def decodeWith (reader : Reader ε α) (bytes : List UInt8) : Except (Fault ε) α :=
  reader.run' bytes

-- A reader that takes exactly the encodings of the valid values, each followed by something it
-- allows there, and refuses every other input.
structure Parses (error : ε) (reader : Reader ε α) (encode : α → List UInt8) (valid : α → Prop)
    (allowed : List UInt8 → Prop) : Prop where
  reads : ∀ value rest, valid value → allowed rest →
    reader.run (encode value ++ rest) = .ok (value, rest)
  exact : ∀ input value rest, reader.run input = .ok (value, rest) →
    valid value ∧ allowed rest ∧ input = encode value ++ rest
  -- No encoding starts another one.
  apart : ∀ value other rest rest', valid value → valid other →
    encode value ++ rest = encode other ++ rest' → value = other ∧ rest = rest'
  total : ∀ input, reader.run input = .error (.Err error) ∨
    ∃ value rest, reader.run input = .ok (value, rest)

-- A writer that, given the room, writes exactly these bytes at its position, and that never
-- returns without it.
structure Writes (host : Host) (writer : Writer ε Unit) (bytes : List UInt8) : Prop where
  fills : ∀ written rest, bytes.length ≤ rest.length → (written ++ rest).length < host.limit →
    writer.run (written.length, written ++ rest) =
      .ok ((), (written ++ bytes).length, written ++ bytes ++ rest.drop bytes.length)
  fits : ∀ position out stop after, writer.run (position, out) = .ok ((), stop, after) →
    stop = position + bytes.length ∧ stop ≤ out.length ∧ after.length = out.length

section Steps

variable {σ : Type} {error : ε} {state : σ}

theorem run_get (next : σ → StateT σ (Except (Fault ε)) β) :
    (get >>= next).run state = (next state).run state := rfl

theorem run_lift_ok (value : α) (next : α → StateT σ (Except (Fault ε)) β) :
    ((liftM (Except.ok value : Except (Fault ε) α) : StateT σ (Except (Fault ε)) α) >>= next).run
      state = (next value).run state := rfl

theorem run_okOr_some (value : α) (next : α → StateT σ (Except (Fault ε)) β) :
    ((liftM (okOr error (some value)) : StateT σ (Except (Fault ε)) α) >>= next).run state =
      (next value).run state := rfl

theorem run_okOr_none (next : α → StateT σ (Except (Fault ε)) β) :
    ((liftM (okOr error none) : StateT σ (Except (Fault ε)) α) >>= next).run state =
      .error (.Err error) := rfl

theorem run_inBounds_some (value : α) (next : α → StateT σ (Except (Fault ε)) β) :
    ((liftM (inBounds (some value) : Except (Fault ε) α) : StateT σ (Except (Fault ε)) α) >>=
      next).run state = (next value).run state := rfl

-- A run that returns passed each of its steps.
theorem run_lift_eq_ok {computed : Except (Fault ε) α} {next : α → StateT σ (Except (Fault ε)) β}
    {result : β × σ}
    (hrun : ((liftM computed : StateT σ (Except (Fault ε)) α) >>= next).run state = .ok result) :
    ∃ value, computed = .ok value ∧ (next value).run state = .ok result := by
  cases computed with
  | error fault => cases hrun
  | ok value => exact ⟨value, rfl, hrun⟩

theorem inBounds_eq_ok {found : Option α} {value : α} :
    (inBounds found : Except (Fault ε) α) = .ok value ↔ found = some value := by
  cases found <;> simp [inBounds]

end Steps

section Readers

variable {error : ε} {valid : α → Prop} {encode : α → List UInt8}

-- A reader that minds nothing behind an encoding keeps its encodings apart.
theorem parses_of_reads {reader : Reader ε α}
    (hreads : ∀ value rest, valid value → reader.run (encode value ++ rest) = .ok (value, rest))
    (hexact : ∀ input value rest, reader.run input = .ok (value, rest) →
      valid value ∧ input = encode value ++ rest)
    (htotal : ∀ input, reader.run input = .error (.Err error) ∨
      ∃ value rest, reader.run input = .ok (value, rest)) :
    Parses error reader encode valid fun _ => True where
  reads value rest hvalue _ := hreads value rest hvalue
  exact input value rest hrun := by
    obtain ⟨hvalue, hinput⟩ := hexact input value rest hrun
    exact ⟨hvalue, trivial, hinput⟩
  apart value other rest rest' hvalue hother heq := by
    have hread := hreads value rest hvalue
    rw [heq, hreads other rest' hother] at hread
    obtain ⟨hvalues, hrests⟩ := Prod.mk.inj (Except.ok.inj hread)
    exact ⟨hvalues.symm, hrests.symm⟩
  total := htotal

-- One field, and then the rest of the layout. What was read of the field is known there.
theorem Parses.bind {allowed : List UInt8 → Prop} {first : Reader ε α} {next : α → Reader ε γ}
    {validRest : γ → Prop} {encodeRest : γ → List UInt8} (field : γ → α)
    (hfirst : Parses error first encode valid fun _ => True)
    (hfield : ∀ value, validRest value → valid (field value))
    (hnext : ∀ part, valid part →
      Parses error (next part) encodeRest (fun value => validRest value ∧ field value = part)
        allowed) :
    Parses error (first >>= next) (fun value => encode (field value) ++ encodeRest value)
      validRest allowed where
  reads value rest hvalue hrest := by
    have hpart := hfirst.reads (field value) (encodeRest value ++ rest) (hfield value hvalue) trivial
    rw [StateT.run_bind, List.append_assoc, hpart]
    exact (hnext _ (hfield value hvalue)).reads value rest ⟨hvalue, rfl⟩ hrest
  exact input value rest hrun := by
    rw [StateT.run_bind] at hrun
    rcases hfirst.total input with hrefused | ⟨part, middle, hpart⟩
    · rw [hrefused] at hrun
      cases hrun
    · rw [hpart] at hrun
      obtain ⟨hvalid, _, hinput⟩ := hfirst.exact input part middle hpart
      obtain ⟨⟨hvalue, hsame⟩, hrest, hmiddle⟩ := (hnext part hvalid).exact middle value rest hrun
      refine ⟨hvalue, hrest, ?_⟩
      rw [hinput, hmiddle, hsame, List.append_assoc]
  apart value other rest rest' hvalue hother heq := by
    rw [List.append_assoc, List.append_assoc] at heq
    obtain ⟨hpart, hlater⟩ :=
      hfirst.apart _ _ _ _ (hfield value hvalue) (hfield other hother) heq
    exact (hnext _ (hfield value hvalue)).apart value other rest rest' ⟨hvalue, rfl⟩
      ⟨hother, hpart.symm⟩ hlater
  total input := by
    rw [StateT.run_bind]
    rcases hfirst.total input with hrefused | ⟨part, middle, hpart⟩
    · rw [hrefused]
      exact .inl rfl
    · rw [hpart]
      exact (hnext part (hfirst.exact input part middle hpart).1).total middle

-- A refusal, where no valid value remains.
theorem parses_refusal {reader : Reader ε α} {allowed : List UInt8 → Prop}
    (hrefuses : ∀ input, reader.run input = .error (.Err error))
    (hnone : ∀ value, ¬ valid value) : Parses error reader encode valid allowed where
  reads value _ hvalue := absurd hvalue (hnone value)
  exact input _ _ hrun := by
    rw [hrefuses] at hrun
    cases hrun
  apart value _ _ _ hvalue := absurd hvalue (hnone value)
  total input := .inl (hrefuses input)

-- The last check, behind the last field: one value remains, and it must end the input.
theorem parses_finish {value : α} {refused : List UInt8 → Prop} [DecidablePred refused]
    (hvalid : ∀ other rest, other = value ∧ ¬ refused rest ↔ valid other ∧ rest = []) :
    Parses error (do
      let rest ← get
      if refused rest then throw (.Err error)
      return value) (fun _ => []) valid (· = []) where
  reads other rest hother hrest := by
    obtain ⟨rfl, haccepted⟩ := (hvalid other rest).2 ⟨hother, hrest⟩
    simp only [List.nil_append, run_get, if_neg haccepted]
    rfl
  exact input other rest hrun := by
    by_cases hrefused : refused input
    · simp only [run_get, if_pos hrefused] at hrun
      cases hrun
    · simp only [run_get, if_neg hrefused] at hrun
      obtain ⟨rfl, rfl⟩ := Prod.mk.inj (Except.ok.inj hrun)
      obtain ⟨hother, hend⟩ := (hvalid value input).1 ⟨rfl, hrefused⟩
      exact ⟨hother, hend, rfl⟩
  apart other later rest rest' hother hlater heq := by
    have hfirst := ((hvalid other []).2 ⟨hother, rfl⟩).1
    have hsecond := ((hvalid later []).2 ⟨hlater, rfl⟩).1
    exact ⟨hfirst.trans hsecond.symm, heq⟩
  total input := by
    by_cases hrefused : refused input
    · simp only [run_get, if_pos hrefused]
      exact .inl rfl
    · simp only [run_get, if_neg hrefused]
      exact .inr ⟨value, input, rfl⟩

theorem Parses.congr {reader : Reader ε α} {other : α → List UInt8} {validOther : α → Prop}
    {allowed : List UInt8 → Prop} (hparses : Parses error reader encode valid allowed)
    (hencode : ∀ value, valid value → other value = encode value)
    (hvalid : ∀ value, validOther value ↔ valid value) :
    Parses error reader other validOther allowed where
  reads value rest hvalue hrest := by
    have hold := (hvalid value).1 hvalue
    rw [hencode value hold]
    exact hparses.reads value rest hold hrest
  exact input value rest hrun := by
    obtain ⟨hvalue, hrest, hinput⟩ := hparses.exact input value rest hrun
    exact ⟨(hvalid value).2 hvalue, hrest, by rw [hencode value hvalue, hinput]⟩
  apart value later rest rest' hvalue hlater heq := by
    rw [hvalid] at hvalue hlater
    rw [hencode value hvalue, hencode later hlater] at heq
    exact hparses.apart value later rest rest' hvalue hlater heq
  total := hparses.total

-- A field converted after it is read, where the conversion may refuse it.
theorem Parses.convert {reader : Reader ε α} {allowed : List UInt8 → Prop}
    (convert : α → Option β) (back : β → α)
    (hconvert : ∀ part value, convert part = some value ↔ part = back value)
    (hparses : Parses error reader encode valid allowed) :
    Parses error (reader >>= fun part => liftM (okOr error (convert part)))
      (fun value => encode (back value)) (fun value => valid (back value)) allowed := by
  have hrun : ∀ part rest, StateT.run (liftM (okOr error (convert part)) : Reader ε β) rest =
      (okOr error (convert part)).map fun value => (value, rest) := by
    intro part rest
    cases convert part <;> rfl
  have hback : ∀ value, convert (back value) = some value := fun value => (hconvert _ _).2 rfl
  constructor
  case reads =>
    intro value rest hvalue hrest
    rw [StateT.run_bind, hparses.reads (back value) rest hvalue hrest]
    refine (hrun (back value) rest).trans ?_
    rw [hback]
    rfl
  case exact =>
    intro input value rest hdone
    rw [StateT.run_bind] at hdone
    rcases hparses.total input with hrefused | ⟨part, middle, hpart⟩
    · rw [hrefused] at hdone
      cases hdone
    · rw [hpart] at hdone
      obtain ⟨hvalid, hrest, hinput⟩ := hparses.exact input part middle hpart
      have hdone := (hrun part middle).symm.trans hdone
      cases hconverted : convert part with
      | none =>
          rw [hconverted] at hdone
          cases hdone
      | some converted =>
          rw [hconverted] at hdone
          cases hdone
          rw [(hconvert part value).1 hconverted] at hvalid hinput
          exact ⟨hvalid, hrest, hinput⟩
  case apart =>
    intro value other rest rest' hvalue hother heq
    obtain ⟨hsame, hrests⟩ := hparses.apart _ _ rest rest' hvalue hother heq
    have hconverted := hback value
    rw [hsame, hback other] at hconverted
    exact ⟨(Option.some.inj hconverted).symm, hrests⟩
  case total =>
    intro input
    rw [StateT.run_bind]
    rcases hparses.total input with hrefused | ⟨part, middle, hpart⟩
    · rw [hrefused]
      exact .inl rfl
    · rw [hpart]
      change StateT.run (liftM (okOr error (convert part)) : Reader ε β) middle = _ ∨
        ∃ value rest, StateT.run (liftM (okOr error (convert part)) : Reader ε β) middle =
          .ok (value, rest)
      rw [hrun]
      cases convert part with
      | none => exact .inl rfl
      | some converted => exact .inr ⟨converted, middle, rfl⟩

theorem parses_splitFirst :
    Parses error (splitFirst error) (fun byte => [byte]) (fun _ => True) fun _ => True := by
  apply parses_of_reads
  · exact fun byte rest _ => rfl
  · intro input byte rest hrun
    cases input with
    | nil => cases hrun
    | cons first tail =>
        obtain ⟨rfl, rfl⟩ := Prod.mk.inj (Except.ok.inj hrun)
        exact ⟨trivial, rfl⟩
  · intro input
    cases input with
    | nil => exact .inl rfl
    | cons first tail => exact .inr ⟨first, tail, rfl⟩

-- The slice behind a taken prefix is in bounds.
theorem run_take (count : Nat) (input : List UInt8) : (take error count).run input =
    if count ≤ input.length then .ok (input.take count, input.drop count)
    else .error (.Err error) := by
  by_cases hcount : count ≤ input.length
  · have htaken : slice input 0 count = some (input.take count) := if_pos ⟨Nat.zero_le _, hcount⟩
    have hrest : slice input count input.length = some (input.drop count) := by
      rw [slice, if_pos ⟨hcount, Nat.le_refl _⟩, List.take_length]
    rw [if_pos hcount]
    simp only [take, run_get, htaken, run_okOr_some, hrest, run_inBounds_some]
    rfl
  · have htaken : slice input 0 count = none := if_neg fun hslice => hcount hslice.2
    rw [if_neg hcount]
    simp only [take, run_get, htaken, run_okOr_none]

theorem parses_take (error : ε) (count : Nat) : Parses error (take error count) id
    (fun bytes => bytes.length = count) fun _ => True := by
  apply parses_of_reads
  · intro bytes rest hlength
    rw [run_take, if_pos (by rw [id_eq, List.length_append]; omega), id_eq,
      List.take_left' hlength, List.drop_left' hlength]
  · intro input bytes rest hrun
    rw [run_take] at hrun
    split at hrun
    · next hcount =>
        obtain ⟨rfl, rfl⟩ := Prod.mk.inj (Except.ok.inj hrun)
        exact ⟨List.length_take_of_le hcount, (List.take_append_drop count input).symm⟩
    · cases hrun
  · intro input
    rw [run_take]
    split
    · exact .inr ⟨_, _, rfl⟩
    · exact .inl rfl

end Readers

section Writers

variable {host : Host}

-- A slice to be copied into has exactly the room, so a wrapped position is never one.
theorem put_fits {bytes out after : List UInt8} {position stop : Nat}
    (hput : (put host bytes : Writer ε Unit).run (position, out) = .ok ((), stop, after)) :
    stop = position + bytes.length ∧ stop ≤ out.length ∧ after.length = out.length := by
  simp only [put, run_get] at hput
  obtain ⟨next, hadd, hput⟩ := run_lift_eq_ok hput
  obtain ⟨target, hslice, hput⟩ := run_lift_eq_ok hput
  by_cases hlength : target.length = bytes.length
  · simp only [hlength, ne_eq, not_true_eq_false, if_false] at hput
    obtain ⟨written, hwrite, hput⟩ := run_lift_eq_ok hput
    obtain ⟨stopped, hstop, hput⟩ := run_lift_eq_ok hput
    obtain rfl : next = stopped := Except.ok.inj (hadd.symm.trans hstop)
    obtain ⟨rfl, rfl⟩ := Prod.mk.inj (Prod.mk.inj (Except.ok.inj hput)).2
    obtain ⟨hbound, hwritten⟩ := overwrite_eq_some (inBounds_eq_ok.1 hwrite)
    obtain ⟨hstart, hend, htarget⟩ := slice_eq_some (inBounds_eq_ok.1 hslice)
    have hkept := congrArg List.length hwritten
    simp only [List.length_append, List.length_take, List.length_drop] at hkept
    omega
  · simp only [ne_eq, hlength, not_false_eq_true, if_true] at hput
    cases hput

theorem writes_put (bytes : List UInt8) :
    Writes host (put host bytes : Writer ε Unit) bytes where
  fills := by
    intro written rest hroom hlimit
    obtain ⟨old, after, rfl, hold⟩ : ∃ old after, rest = old ++ after ∧ old.length = bytes.length :=
      ⟨rest.take bytes.length, rest.drop bytes.length, (List.take_append_drop _ _).symm,
        List.length_take_of_le hroom⟩
    simp only [List.length_append] at hlimit
    have hadd : (host.add written.length bytes.length : Except (Fault ε) Nat) =
        .ok (written.length + bytes.length) := Host.add_eq_ok (by omega)
    have hslice : slice (written ++ (old ++ after)) written.length
        (written.length + bytes.length) = some old := by
      rw [← List.append_assoc, ← hold]
      exact slice_middle written old after
    have hwrite : overwrite (written ++ (old ++ after)) written.length bytes =
        some (written ++ bytes ++ after) := by
      rw [← List.append_assoc]
      exact overwrite_middle written old after hold
    rw [List.drop_left' hold, List.length_append]
    simp only [put, run_get, hadd, run_lift_ok, hslice, run_inBounds_some, hold, ne_eq,
      not_true_eq_false, if_false, hwrite]
    rfl
  fits _ _ _ _ := put_fits

theorem Writes.append {first second : Writer ε Unit} {bytes later : List UInt8}
    (hfirst : Writes host first bytes) (hsecond : Writes host second later) :
    Writes host (first >>= fun _ => second) (bytes ++ later) where
  fills := by
    intro written rest hroom hlimit
    simp only [List.length_append] at hroom hlimit
    have hnext := hsecond.fills (written ++ bytes) (rest.drop bytes.length)
      (by rw [List.length_drop]; omega)
      (by simp only [List.length_append, List.length_drop]; omega)
    rw [StateT.run_bind,
      hfirst.fills written rest (by omega) (by simp only [List.length_append]; omega)]
    change second.run _ = _
    have htotal : (bytes ++ later).length = bytes.length + later.length := List.length_append
    rw [hnext, List.drop_drop, List.append_assoc written, htotal]
  fits := by
    intro position out stop after hrun
    rw [StateT.run_bind] at hrun
    cases hwritten : first.run (position, out) with
    | error fault =>
        rw [hwritten] at hrun
        cases hrun
    | ok result =>
        obtain ⟨⟨⟩, middle, between⟩ := result
        rw [hwritten] at hrun
        obtain ⟨hmiddle, _, hbetween⟩ := hfirst.fits _ _ _ _ hwritten
        obtain ⟨hstop, hroom, hafter⟩ := hsecond.fits middle between stop after hrun
        rw [List.length_append]
        omega

-- An encoder whose buffer has room writes its bytes at the front and leaves the rest alone.
theorem encodeWith_eq_ok {error : ε} {total : Except (Fault ε) Nat} {writer : Writer ε Unit}
    {bytes out : List UInt8} (htotal : total = .ok bytes.length)
    (hwrites : Writes host writer bytes) (hroom : bytes.length ≤ out.length)
    (hlimit : out.length < host.limit) :
    encodeWith error total writer out =
      .ok (bytes.length, bytes ++ out.drop bytes.length) := by
  have htarget : slice out 0 bytes.length = some (out.take bytes.length) :=
    if_pos ⟨Nat.zero_le _, hroom⟩
  have hlength : (out.take bytes.length).length = bytes.length := List.length_take_of_le hroom
  have hwritten := hwrites.fills [] (out.take bytes.length) (by omega)
    (by rw [List.nil_append]; omega)
  rw [List.drop_of_length_le (by omega), List.nil_append, List.nil_append, List.append_nil,
    List.length_nil] at hwritten
  simp only [encodeWith, htotal, htarget, okOr, bind, Except.bind, hwritten]
  rfl

-- An encoder that returns had the room, whatever its total wrapped to.
theorem room_of_encodeWith {error : ε} {total : Except (Fault ε) Nat} {writer : Writer ε Unit}
    {bytes out after : List UInt8} {count : Nat} (hwrites : Writes host writer bytes)
    (hencode : encodeWith error total writer out = .ok (count, after)) :
    bytes.length ≤ out.length := by
  unfold encodeWith at hencode
  cases total with
  | error fault => cases hencode
  | ok total =>
      cases htarget : slice out 0 total with
      | none =>
          simp only [htarget, okOr, bind, Except.bind] at hencode
          cases hencode
      | some target =>
          simp only [htarget, okOr, bind, Except.bind] at hencode
          cases hwritten : writer.run (0, target) with
          | error fault =>
              rw [hwritten] at hencode
              cases hencode
          | ok result =>
              obtain ⟨⟨⟩, stop, written⟩ := result
              obtain ⟨hstop, hroom, _⟩ := hwrites.fits _ _ _ _ hwritten
              obtain ⟨_, hbound, hlength⟩ := slice_eq_some htarget
              omega

-- A buffer that is too short is refused before anything is written.
theorem encodeWith_short {error : ε} {total : Except (Fault ε) Nat} {writer : Writer ε Unit}
    {size : Nat} {out : List UInt8} (htotal : total = .ok size) (hshort : out.length < size) :
    encodeWith error total writer out = .error (.Err error) := by
  have htarget : slice out 0 size = none := if_neg fun hslice => by omega
  simp only [encodeWith, htotal, htarget, okOr, bind, Except.bind]

end Writers

section Formats

-- A canonical format: a value that may be decoded has one encoding and an encoding one value,
-- and nothing next to an encoding is one.
structure Canonical (host : Host) (error : ε) (encodedLen : α → Nat)
    (encode : α → List UInt8 → Except (Fault ε) (Nat × List UInt8))
    (decode : List UInt8 → Except (Fault ε) α) (decodable : α → Prop) : Prop where
  round_trip : ∀ value out, encodedLen value ≤ out.length → out.length < host.limit →
    ∃ written, written.length = encodedLen value ∧
      encode value out = .ok (encodedLen value, written ++ out.drop (encodedLen value)) ∧
      (decodable value → decode written = .ok value)
  -- Whatever the encoder returns, it wrote the whole of, and it decodes back.
  answers : ∀ value out count after, out.length < host.limit →
    encode value out = .ok (count, after) → count = encodedLen value ∧ count ≤ out.length ∧
      after.length = out.length ∧ after.drop count = out.drop count ∧
      (decodable value → decode (after.take count) = .ok value)
  refuses_short : ∀ value out, out.length < encodedLen value → encodedLen value < host.limit →
    encode value out = .error (.Err error)
  re_encodes : ∀ bytes value, decode bytes = .ok value →
    decodable value ∧ encodedLen value = bytes.length ∧
    ∀ out, bytes.length ≤ out.length → out.length < host.limit →
      encode value out = .ok (bytes.length, bytes ++ out.drop bytes.length)
  refuses_prefix : ∀ bytes value, decode bytes = .ok value → ∀ shorter suffix,
    bytes = shorter ++ suffix → suffix ≠ [] → decode shorter = .error (.Err error)
  refuses_extension : ∀ bytes value, decode bytes = .ok value → ∀ suffix, suffix ≠ [] →
    decode (bytes ++ suffix) = .error (.Err error)
  total : ∀ bytes, decode bytes = .error (.Err error) ∨ ∃ value, decode bytes = .ok value

variable {host : Host} {error : ε} {reader : Reader ε α} {encode : α → List UInt8}
  {valid : α → Prop}

theorem decodeWith_eq_ok (hparses : Parses error reader encode valid (· = [])) {bytes : List UInt8}
    {value : α} : decodeWith reader bytes = .ok value ↔ valid value ∧ bytes = encode value := by
  have hrun : decodeWith reader bytes = (reader.run bytes).map Prod.fst := rfl
  rw [hrun]
  constructor
  · intro hdecode
    rcases hparses.total bytes with hrefused | ⟨read, rest, hread⟩
    · rw [hrefused] at hdecode
      cases hdecode
    · rw [hread] at hdecode
      cases hdecode
      obtain ⟨hvalue, rfl, hbytes⟩ := hparses.exact bytes _ rest hread
      exact ⟨hvalue, by rw [hbytes, List.append_nil]⟩
  · rintro ⟨hvalue, rfl⟩
    have hread := hparses.reads value [] hvalue rfl
    rw [List.append_nil] at hread
    rw [hread]
    rfl

theorem decodeWith_total (hparses : Parses error reader encode valid (· = []))
    (bytes : List UInt8) : decodeWith reader bytes = .error (.Err error) ∨
      ∃ value, decodeWith reader bytes = .ok value := by
  have hrun : decodeWith reader bytes = (reader.run bytes).map Prod.fst := rfl
  rw [hrun]
  rcases hparses.total bytes with hrefused | ⟨value, rest, hread⟩
  · rw [hrefused]
    exact .inl rfl
  · rw [hread]
    exact .inr ⟨value, rfl⟩

-- What a reader takes whole has no other reading that goes on behind it.
theorem not_decodeWith_append (hparses : Parses error reader encode valid (· = []))
    {bytes suffix : List UInt8} {value : α} (hdecode : decodeWith reader bytes = .ok value)
    (hsuffix : suffix ≠ []) (other : α) : decodeWith reader (bytes ++ suffix) ≠ .ok other := by
  intro hother
  obtain ⟨hvalue, rfl⟩ := (decodeWith_eq_ok hparses).1 hdecode
  obtain ⟨hlater, hsame⟩ := (decodeWith_eq_ok hparses).1 hother
  have happart := hparses.apart value other suffix [] hvalue hlater
    (by rw [hsame, List.append_nil])
  exact hsuffix happart.2

-- A writer and a reader of one layout make a canonical format.
theorem canonical_of_layout {decodable : α → Prop} {encodedLen : α → Nat}
    {total : α → Except (Fault ε) Nat} {writer : α → Writer ε Unit}
    (hparses : Parses error reader encode valid (· = []))
    (hwrites : ∀ value, Writes host (writer value) (encode value))
    (hlength : ∀ value, (encode value).length = encodedLen value)
    (htotal : ∀ value, encodedLen value < host.limit → total value = .ok (encodedLen value))
    (hvalid : ∀ value, encodedLen value < host.limit → (valid value ↔ decodable value))
    (hdecodable : ∀ value, valid value → decodable value) :
    Canonical host error encodedLen
      (fun value => encodeWith error (total value) (writer value)) (decodeWith reader)
      decodable where
  round_trip value out hroom hlimit := by
    have hfits : encodedLen value < host.limit := by omega
    have htotal := htotal value hfits
    rw [← hlength value] at hroom htotal ⊢
    refine ⟨encode value, rfl, encodeWith_eq_ok htotal (hwrites value) hroom hlimit, ?_⟩
    intro hvalue
    exact (decodeWith_eq_ok hparses).2 ⟨(hvalid value hfits).2 hvalue, rfl⟩
  answers value out count after hlimit hencode := by
    have hroom := room_of_encodeWith (hwrites value) hencode
    have hfits : encodedLen value < host.limit := by rw [← hlength value]; omega
    have htotal := htotal value hfits
    rw [← hlength value] at htotal ⊢
    rw [encodeWith_eq_ok htotal (hwrites value) hroom hlimit] at hencode
    obtain ⟨rfl, rfl⟩ := Prod.mk.inj (Except.ok.inj hencode)
    refine ⟨rfl, hroom, ?_, List.drop_left, ?_⟩
    · rw [List.length_append, List.length_drop]
      omega
    · intro hvalue
      rw [List.take_left]
      exact (decodeWith_eq_ok hparses).2 ⟨(hvalid value hfits).2 hvalue, rfl⟩
  refuses_short value out hshort hlimit := encodeWith_short (htotal value hlimit) hshort
  re_encodes bytes value hdecode := by
    obtain ⟨hvalue, rfl⟩ := (decodeWith_eq_ok hparses).1 hdecode
    refine ⟨hdecodable value hvalue, (hlength value).symm, ?_⟩
    intro out hroom hlimit
    have htotal := htotal value (by rw [← hlength value]; omega)
    rw [← hlength value] at htotal
    exact encodeWith_eq_ok htotal (hwrites value) hroom hlimit
  refuses_prefix bytes value hdecode shorter suffix hbytes hsuffix := by
    rcases decodeWith_total hparses shorter with hrefused | ⟨other, hother⟩
    · exact hrefused
    · rw [hbytes] at hdecode
      exact absurd hdecode (not_decodeWith_append hparses hother hsuffix value)
  refuses_extension bytes value hdecode suffix hsuffix := by
    rcases decodeWith_total hparses (bytes ++ suffix) with hrefused | ⟨other, hother⟩
    · exact hrefused
    · exact absurd hother (not_decodeWith_append hparses hdecode hsuffix other)
  total := decodeWith_total hparses

end Formats

end Codec
