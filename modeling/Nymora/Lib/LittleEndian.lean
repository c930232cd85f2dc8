import Mathlib.Data.List.Basic
import Mathlib.Data.Nat.Bitwise
import Mathlib.Tactic.Ring

namespace LittleEndian

-- The natural number a byte string names, least significant byte first.
def toNat : List UInt8 → Nat
  | [] => 0
  | byte :: bytes => byte.toNat + 256 * toNat bytes

-- The `width` low bytes of a natural number, least significant byte first.
def ofNat : Nat → Nat → List UInt8
  | 0, _ => []
  | width + 1, value => UInt8.ofNat value :: ofNat width (value / 256)

@[simp] theorem toNat_nil : toNat [] = 0 := rfl

@[simp] theorem toNat_cons (byte : UInt8) (bytes : List UInt8) :
    toNat (byte :: bytes) = byte.toNat + 256 * toNat bytes := rfl

@[simp] theorem length_ofNat (width value : Nat) : (ofNat width value).length = width := by
  induction width generalizing value with
  | zero => rfl
  | succ width ih => simp [ofNat, ih]

theorem toNat_lt (bytes : List UInt8) : toNat bytes < 256 ^ bytes.length := by
  induction bytes with
  | nil => simp
  | cons byte bytes ih =>
      have hbyte := byte.toNat_lt
      simp only [toNat_cons, List.length_cons, pow_succ]
      omega

theorem toNat_ofNat (width value : Nat) : toNat (ofNat width value) = value % 256 ^ width := by
  induction width generalizing value with
  | zero => simp [ofNat, Nat.mod_one]
  | succ width ih =>
      have hbyte : (UInt8.ofNat value).toNat = value % 256 := UInt8.toNat_ofNat'
      rw [ofNat, toNat_cons, ih, hbyte, pow_succ', Nat.mod_mul]

theorem toNat_ofNat_of_lt {width value : Nat} (hvalue : value < 256 ^ width) :
    toNat (ofNat width value) = value := by
  rw [toNat_ofNat, Nat.mod_eq_of_lt hvalue]

theorem ofNat_toNat (bytes : List UInt8) : ofNat bytes.length (toNat bytes) = bytes := by
  induction bytes with
  | nil => rfl
  | cons byte bytes ih =>
      have hbyte := byte.toNat_lt
      have hdiv : (byte.toNat + 256 * toNat bytes) / 256 = toNat bytes := by omega
      have hlow : UInt8.ofNat (byte.toNat + 256 * toNat bytes) = byte := by
        apply UInt8.toNat.inj
        simp only [UInt8.toNat_ofNat']
        omega
      simp only [List.length_cons, toNat_cons, ofNat, hdiv, hlow, ih]

theorem toNat_inj {left right : List UInt8} (hlength : left.length = right.length) :
    toNat left = toNat right ↔ left = right := by
  refine ⟨fun heq => ?_, fun heq => heq ▸ rfl⟩
  rw [← ofNat_toNat left, ← ofNat_toNat right, heq, hlength]

theorem ofNat_inj {width left right : Nat} (hleft : left < 256 ^ width)
    (hright : right < 256 ^ width) : ofNat width left = ofNat width right ↔ left = right := by
  refine ⟨fun heq => ?_, fun heq => heq ▸ rfl⟩
  rw [← toNat_ofNat_of_lt hleft, heq, toNat_ofNat_of_lt hright]

theorem toNat_append (low high : List UInt8) :
    toNat (low ++ high) = toNat low + 256 ^ low.length * toNat high := by
  induction low with
  | nil => simp
  | cons byte low ih =>
      simp only [List.cons_append, toNat_cons, ih, List.length_cons]
      ring

@[simp] theorem toNat_replicate_zero (count : Nat) : toNat (List.replicate count 0) = 0 := by
  induction count with
  | zero => rfl
  | succ count ih => simp [List.replicate_succ, ih]

-- Masking the top byte with `2 ^ bits - 1` reduces the number modulo a power of two.
theorem toNat_mask_top (low : List UInt8) (top : UInt8) (bits : Nat) (hbits : bits ≤ 8) :
    toNat (low ++ [top &&& UInt8.ofNat (2 ^ bits - 1)]) =
      toNat (low ++ [top]) % (256 ^ low.length * 2 ^ bits) := by
  have hmask : (top &&& UInt8.ofNat (2 ^ bits - 1)).toNat = top.toNat % 2 ^ bits := by
    have hle : 2 ^ bits ≤ 256 := by
      calc 2 ^ bits ≤ 2 ^ 8 := Nat.pow_le_pow_right (by decide) hbits
        _ = 256 := rfl
    have hpos : 0 < 2 ^ bits := Nat.pow_pos (by decide)
    rw [UInt8.toNat_and, UInt8.toNat_ofNat', Nat.mod_eq_of_lt (by omega),
      Nat.and_two_pow_sub_one_eq_mod]
  have hlow := toNat_lt low
  simp only [toNat_append, toNat_cons, toNat_nil, Nat.mul_zero, Nat.add_zero, hmask]
  rw [Nat.mod_mul, Nat.add_mul_mod_self_left, Nat.mod_eq_of_lt hlow,
    Nat.add_mul_div_left _ _ (Nat.pow_pos (by decide)), Nat.div_eq_of_lt hlow, Nat.zero_add]

private theorem compare_append_singleton (left right : List UInt8) (byte other : UInt8)
    (hlength : left.length = right.length) :
    compare (left ++ [byte]) (right ++ [other]) =
      (compare left right).then (compare byte other) := by
  induction left generalizing right with
  | nil => cases right with
    | nil => simp
    | cons _ _ => simp at hlength
  | cons first left ih => cases right with
    | nil => simp at hlength
    | cons second right =>
        have hrest := ih right (by simpa using hlength)
        simp only [List.compare_eq_compareLex] at hrest ⊢
        simp only [List.cons_append, List.compareLex_cons_cons, hrest, Ordering.then_assoc]

private theorem compare_byte (byte other : UInt8) :
    compare byte other = compare byte.toNat other.toNat := by
  simp only [compare, compareOfLessAndEq, UInt8.lt_iff_toNat_lt, ← UInt8.toNat_inj]

-- Read from the most significant byte down, the lexicographic order of equally long byte
-- strings is the order of the numbers they name.
theorem compare_reverse (left right : List UInt8) (hlength : left.length = right.length) :
    compare left.reverse right.reverse = compare (toNat left) (toNat right) := by
  induction left generalizing right with
  | nil => cases right with
    | nil => rfl
    | cons _ _ => simp at hlength
  | cons byte left ih => cases right with
    | nil => simp at hlength
    | cons other right =>
        have hrest : left.length = right.length := by simpa using hlength
        rw [List.reverse_cons, List.reverse_cons,
          compare_append_singleton _ _ byte other (by simpa using hrest), ih right hrest]
        have hbyte := byte.toNat_lt
        have hother := other.toNat_lt
        simp only [toNat_cons]
        rcases Nat.lt_trichotomy (toNat left) (toNat right) with hlt | heq | hgt
        · rw [Nat.compare_eq_lt.2 hlt, Nat.compare_eq_lt.2 (by omega)]
          rfl
        · rw [heq, Nat.compare_eq_eq.2 rfl, compare_byte, Ordering.then]
          rcases Nat.lt_trichotomy byte.toNat other.toNat with hlt | heq | hgt
          · rw [Nat.compare_eq_lt.2 hlt, Nat.compare_eq_lt.2 (by omega)]
          · rw [heq, Nat.compare_eq_eq.2 rfl, Nat.compare_eq_eq.2 rfl]
          · rw [Nat.compare_eq_gt.2 hgt, Nat.compare_eq_gt.2 (by omega)]
        · rw [Nat.compare_eq_gt.2 hgt, Nat.compare_eq_gt.2 (by omega)]
          rfl

end LittleEndian
