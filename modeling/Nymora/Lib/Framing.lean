import Nymora.Lib.LittleEndian

namespace Framing

variable {width : Nat}

-- A byte string behind its length in `width` bytes.
def frame (width : Nat) (bytes : List UInt8) : List UInt8 :=
  LittleEndian.ofNat width bytes.length ++ bytes

-- The length is one the prefix can state.
def Fits (width : Nat) (bytes : List UInt8) : Prop := bytes.length < 256 ^ width

theorem length_frame (bytes : List UInt8) :
    (frame width bytes).length = width + bytes.length := by
  rw [frame, List.length_append, LittleEndian.length_ofNat]

-- The first frame of a stream is read back, and with it the rest of the stream.
theorem frame_append_inj {left right leftRest rightRest : List UInt8} (hleft : Fits width left)
    (hright : Fits width right)
    (heq : frame width left ++ leftRest = frame width right ++ rightRest) :
    left = right ∧ leftRest = rightRest := by
  unfold frame at heq
  rw [List.append_assoc, List.append_assoc] at heq
  obtain ⟨hlengths, hrest⟩ := List.append_inj heq (by simp)
  have hlength : left.length = right.length := (LittleEndian.ofNat_inj hleft hright).1 hlengths
  exact List.append_inj hrest hlength

-- A stream of frames is cut at the same places by every reader. The prefix is never empty, so
-- that no frame is read out of nothing.
theorem flatMap_frame_inj (hwidth : 0 < width) {left right : List (List UInt8)}
    (hleft : ∀ part ∈ left, Fits width part) (hright : ∀ part ∈ right, Fits width part)
    (heq : left.flatMap (frame width) = right.flatMap (frame width)) : left = right := by
  have hframe : ∀ (part : List UInt8) (rest : List UInt8), frame width part ++ rest ≠ [] := by
    intro part rest hnil
    have hlength := congrArg List.length hnil
    rw [List.length_append, length_frame, List.length_nil] at hlength
    omega
  induction left generalizing right with
  | nil =>
      cases right with
      | nil => rfl
      | cons part right =>
          rw [List.flatMap_nil, List.flatMap_cons] at heq
          exact absurd heq.symm (hframe part _)
  | cons part left ih =>
      cases right with
      | nil =>
          rw [List.flatMap_nil, List.flatMap_cons] at heq
          exact absurd heq (hframe part _)
      | cons other right =>
          rw [List.flatMap_cons, List.flatMap_cons] at heq
          obtain ⟨rfl, hrest⟩ := frame_append_inj (hleft part List.mem_cons_self)
            (hright other List.mem_cons_self) heq
          have htail := ih (fun part hpart => hleft part (List.mem_cons_of_mem _ hpart))
            (fun part hpart => hright part (List.mem_cons_of_mem _ hpart)) hrest
          rw [htail]

-- Reads one frame off a stream: the bytes it holds, and the rest of the stream.
def unframe (width : Nat) (stream : List UInt8) : Option (List UInt8 × List UInt8) :=
  let length := LittleEndian.toNat (stream.take width)
  let body := stream.drop width
  if stream.length < width ∨ body.length < length then none
  else some (body.take length, body.drop length)

theorem unframe_frame_append {bytes rest : List UInt8} (hfits : Fits width bytes) :
    unframe width (frame width bytes ++ rest) = some (bytes, rest) := by
  have htake : (frame width bytes ++ rest).take width =
      LittleEndian.ofNat width bytes.length := by
    rw [frame, List.append_assoc]
    exact List.take_left' (LittleEndian.length_ofNat width _)
  have hdrop : (frame width bytes ++ rest).drop width = bytes ++ rest := by
    rw [frame, List.append_assoc]
    exact List.drop_left' (LittleEndian.length_ofNat width _)
  have hlength := LittleEndian.toNat_ofNat_of_lt hfits
  unfold unframe
  simp only [htake, hdrop, hlength, List.length_append, length_frame]
  rw [if_neg (by omega), List.take_left' rfl, List.drop_left' rfl]

-- What is read back is a frame at the head of the stream.
theorem eq_frame_append_of_unframe {stream bytes rest : List UInt8}
    (hread : unframe width stream = some (bytes, rest)) :
    stream = frame width bytes ++ rest ∧ Fits width bytes := by
  unfold unframe at hread
  simp only at hread
  split at hread
  · cases hread
  · next hshort =>
      obtain ⟨hwidth, hbody⟩ := not_or.1 hshort
      obtain ⟨hbytes, hrest⟩ := Prod.mk.inj (Option.some.inj hread)
      have hlead : (stream.take width).length = width := by
        rw [List.length_take]
        omega
      have hlength : bytes.length = LittleEndian.toNat (stream.take width) := by
        rw [← hbytes, List.length_take]
        omega
      have hback := LittleEndian.ofNat_toNat (stream.take width)
      rw [hlead] at hback
      constructor
      · rw [frame, hlength, hback, ← hbytes, ← hrest, List.append_assoc, List.take_append_drop,
          List.take_append_drop]
      · have hlt := LittleEndian.toNat_lt (stream.take width)
        rw [hlead] at hlt
        rw [Fits, hlength]
        exact hlt

end Framing
