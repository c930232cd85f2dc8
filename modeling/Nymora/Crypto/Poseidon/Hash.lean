import Nymora.Crypto.Poseidon.Constants

namespace Nymora.Crypto.Poseidon

def FULL_ROUNDS : Nat := 8

def addRow (state constants : Row) : Row :=
  ⟨state.entry0 + constants.entry0, state.entry1 + constants.entry1,
    state.entry2 + constants.entry2⟩

def dot (row state : Row) : F :=
  row.entry0 * state.entry0 + row.entry1 * state.entry1 + row.entry2 * state.entry2

-- The MDS matrix, then the next round's constants where a next round exists.
def linearLayer (state : Row) (nextRound : Option Row) : Row :=
  let mixed : Row := ⟨dot MDS0 state, dot MDS1 state, dot MDS2 state⟩
  match nextRound with
  | some constants => addRow mixed constants
  | none => mixed

def sbox (x : F) : F := (x * x) * (x * x) * x

def round (state : Row) (number : Nat) : Row :=
  let isPartial := FULL_ROUNDS / 2 ≤ number ∧ number < ROUNDS - FULL_ROUNDS / 2
  let powered : Row :=
    if isPartial then ⟨state.entry0, state.entry1, sbox state.entry2⟩
    else ⟨sbox state.entry0, sbox state.entry1, sbox state.entry2⟩
  linearLayer powered ROUND_CONSTANTS[number + 1]?

def permute (state : Row) : Row :=
  (List.range ROUNDS).foldl round (addRow state (ROUND_CONSTANTS.headD ⟨0, 0, 0⟩))

-- The sponge: blocks of two elements, added in and permuted.
def absorb : Row → List F → Row
  | state, [] => state
  | state, [value] => permute { state with entry0 := state.entry0 + value }
  | state, first :: second :: rest =>
      absorb (permute { state with
        entry0 := state.entry0 + first, entry1 := state.entry1 + second }) rest

-- The input length enters through the capacity element.
def hash (inputs : List F) : F :=
  (absorb ⟨0, 0, Field.ofNat inputs.length⟩ inputs).entry0

-- The pinned known answer of the instance.
example : hash [1, 2] =
    0x4ad818f39d91567d105c5bea1ec4b5ac201dc45b784e39a2beef781790bf5177 := by
  decide +kernel

end Nymora.Crypto.Poseidon
