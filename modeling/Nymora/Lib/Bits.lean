import Mathlib.Algebra.Group.Nat.Defs
import Mathlib.Data.Nat.Bits

namespace BitString

-- The natural number a bit string names, least significant bit first.
def toNat : List Bool → Nat
  | [] => 0
  | bit :: bits => bit.toNat + 2 * toNat bits

-- The `width` low bits of a natural number, least significant bit first.
def ofNat : Nat → Nat → List Bool
  | 0, _ => []
  | width + 1, value => decide (value % 2 = 1) :: ofNat width (value / 2)

theorem toNat_ofNat (width value : Nat) : toNat (ofNat width value) = value % 2 ^ width := by
  induction width generalizing value with
  | zero => rw [ofNat, toNat, Nat.pow_zero, Nat.mod_one]
  | succ width ih =>
    have hbit : (decide (value % 2 = 1)).toNat = value % 2 := by
      rcases Nat.mod_two_eq_zero_or_one value with hbit | hbit <;> simp [hbit]
    rw [ofNat, toNat, ih, hbit, Nat.pow_succ', Nat.mod_mul]

-- The low bits of a decomposition are a shorter decomposition.
theorem take_ofNat {count width : Nat} (hcount : count ≤ width) (value : Nat) :
    (ofNat width value).take count = ofNat count value := by
  induction count generalizing width value with
  | zero => rfl
  | succ count ih =>
    cases width with
    | zero => omega
    | succ width => rw [ofNat, List.take_succ_cons, ih (by omega), ofNat]

theorem toNat_take_ofNat {count width : Nat} (hcount : count ≤ width) (value : Nat) :
    toNat ((ofNat width value).take count) = value % 2 ^ count := by
  rw [take_ofNat hcount, toNat_ofNat]

theorem toNat_lt (bits : List Bool) : toNat bits < 2 ^ bits.length := by
  induction bits with
  | nil => exact Nat.one_pos
  | cons bit bits ih =>
    have hbit := bit.toNat_le
    rw [toNat, List.length_cons, Nat.pow_succ]
    omega

theorem testBit_toNat (bits : List Bool) (index : Nat) :
    (toNat bits).testBit index = bits[index]?.getD false := by
  induction bits generalizing index with
  | nil => simp [toNat]
  | cons bit bits ih =>
    have hsum : toNat (bit :: bits) = Nat.bit bit (toNat bits) := by
      cases bit <;> simp [toNat, Nat.bit_val, Nat.add_comm]
    cases index with
    | zero => rw [hsum, Nat.testBit_bit_zero]; rfl
    | succ index => rw [hsum, Nat.testBit_bit_succ, ih]; rfl

end BitString
