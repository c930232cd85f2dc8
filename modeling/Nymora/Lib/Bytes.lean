import Nymora.Lib.LittleEndian
import Std.Data.ExtTreeMap
import Std.Data.ExtTreeSet

-- A byte string of fixed width.
structure Bytes (width : Nat) where
  toList : List UInt8
  length_toList : toList.length = width
deriving DecidableEq

namespace Bytes

variable {width : Nat}

attribute [simp] length_toList

@[ext] theorem ext {left right : Bytes width} (hlist : left.toList = right.toList) :
    left = right := by
  cases left; cases right; simp only at hlist; subst hlist; rfl

theorem toList_inj {left right : Bytes width} : left.toList = right.toList ↔ left = right :=
  ⟨ext, fun heq => heq ▸ rfl⟩

-- The order of the byte string as a key: lexicographic from the first byte.
instance : Ord (Bytes width) where
  compare left right := compare left.toList right.toList

instance : Std.TransOrd (Bytes width) where
  eq_swap {left right} := Std.OrientedOrd.eq_swap (a := left.toList) (b := right.toList)
  isLE_trans {left middle right} := Std.TransOrd.isLE_trans
    (a := left.toList) (b := middle.toList) (c := right.toList)

-- The width of every set of keys, its order named so that each set carries the same proof.
instance transOrd32 : Std.TransOrd (Bytes 32) := inferInstance

instance : Std.LawfulEqOrd (Bytes width) where
  eq_of_compare {left right} heq :=
    ext (Std.LawfulEqOrd.eq_of_compare (a := left.toList) (b := right.toList) heq)
  compare_self {bytes} := Std.ReflOrd.compare_self (a := bytes.toList)

def replicate (width : Nat) (byte : UInt8) : Bytes width :=
  ⟨List.replicate width byte, List.length_replicate⟩

def zero (width : Nat) : Bytes width := replicate width 0

def append {other : Nat} (left : Bytes width) (right : Bytes other) : Bytes (width + other) :=
  ⟨left.toList ++ right.toList, by simp⟩

def reverse (bytes : Bytes width) : Bytes width := ⟨bytes.toList.reverse, by simp⟩

-- Applies a function to the byte at one index.
def modify (bytes : Bytes width) (index : Nat) (change : UInt8 → UInt8) : Bytes width :=
  ⟨bytes.toList.modify index change, by simp⟩

-- The byte string a list of exactly this width is.
def ofList? (width : Nat) (bytes : List UInt8) : Option (Bytes width) :=
  if hlength : bytes.length = width then some ⟨bytes, hlength⟩ else none

-- The first `width` bytes of a longer byte string.
def takePrefix (count : Nat) (bytes : Bytes width) (hcount : count ≤ width) : Bytes count :=
  ⟨bytes.toList.take count, by simp [hcount]⟩

-- The number a byte string names, least significant byte first.
def toNatLe (bytes : Bytes width) : Nat := LittleEndian.toNat bytes.toList

def ofNatLe (width value : Nat) : Bytes width :=
  ⟨LittleEndian.ofNat width value, LittleEndian.length_ofNat width value⟩

@[simp] theorem toList_append {other : Nat} (left : Bytes width) (right : Bytes other) :
    (left.append right).toList = left.toList ++ right.toList := rfl

@[simp] theorem toList_reverse (bytes : Bytes width) :
    bytes.reverse.toList = bytes.toList.reverse := rfl

@[simp] theorem toList_modify (bytes : Bytes width) (index : Nat) (change : UInt8 → UInt8) :
    (bytes.modify index change).toList = bytes.toList.modify index change := rfl

@[simp] theorem toList_ofNatLe (width value : Nat) :
    (ofNatLe width value).toList = LittleEndian.ofNat width value := rfl

@[simp] theorem reverse_reverse (bytes : Bytes width) : bytes.reverse.reverse = bytes :=
  ext (List.reverse_reverse bytes.toList)

@[simp] theorem ofList?_toList (bytes : Bytes width) : ofList? width bytes.toList = some bytes := by
  simp [ofList?]

theorem ofList?_eq_some {list : List UInt8} {bytes : Bytes width} :
    ofList? width list = some bytes ↔ list = bytes.toList := by
  refine ⟨fun hsome => ?_, fun heq => heq ▸ ofList?_toList bytes⟩
  unfold ofList? at hsome
  split at hsome
  · cases hsome; rfl
  · cases hsome

theorem toNatLe_lt (bytes : Bytes width) : bytes.toNatLe < 256 ^ width := by
  simpa [toNatLe] using LittleEndian.toNat_lt bytes.toList

theorem toNatLe_inj {left right : Bytes width} : left.toNatLe = right.toNatLe ↔ left = right := by
  rw [← toList_inj]
  exact LittleEndian.toNat_inj (by simp)

theorem toNatLe_ofNatLe {value : Nat} (hvalue : value < 256 ^ width) :
    (ofNatLe width value).toNatLe = value := LittleEndian.toNat_ofNat_of_lt hvalue

theorem ofNatLe_toNatLe (bytes : Bytes width) : ofNatLe width bytes.toNatLe = bytes :=
  toNatLe_inj.1 (toNatLe_ofNatLe bytes.toNatLe_lt)

@[simp] theorem toNatLe_zero : (zero width).toNatLe = 0 :=
  LittleEndian.toNat_replicate_zero width

-- Reversed byte strings are ordered as the numbers they name.
theorem compare_reverse (left right : Bytes width) :
    compare left.reverse right.reverse = compare left.toNatLe right.toNatLe :=
  LittleEndian.compare_reverse left.toList right.toList (by simp)

-- Clearing the high bits of the last byte reduces the number modulo a power of two.
theorem toNatLe_modify_top (bytes : Bytes (width + 1)) (bits : Nat) (hbits : bits ≤ 8) :
    (bytes.modify width (· &&& UInt8.ofNat (2 ^ bits - 1))).toNatLe =
      bytes.toNatLe % (256 ^ width * 2 ^ bits) := by
  obtain ⟨low, top, hsplit⟩ : ∃ low top, bytes.toList = low ++ [top] := by
    have hne : bytes.toList ≠ [] := by
      intro hnil
      simpa [hnil] using bytes.length_toList
    exact ⟨bytes.toList.dropLast, bytes.toList.getLast hne, (List.dropLast_concat_getLast hne).symm⟩
  have hlow : low.length = width := by
    have hlength := bytes.length_toList
    rw [hsplit] at hlength
    simpa using hlength
  have hmodify : (low ++ [top]).modify width (· &&& UInt8.ofNat (2 ^ bits - 1)) =
      low ++ [top &&& UInt8.ofNat (2 ^ bits - 1)] := by
    rw [List.modify_eq_take_cons_drop (by simp [hlow])]
    simp [← hlow]
  simp only [toNatLe, toList_modify, hsplit, hmodify]
  rw [LittleEndian.toNat_mask_top low top bits hbits, hlow]

end Bytes
