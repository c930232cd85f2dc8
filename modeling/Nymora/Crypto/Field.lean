import Nymora.Lib.Bytes
import Nymora.Core.Epoch

namespace Nymora.Crypto

open Nymora.Core

-- The order of the BLS12-381 scalar field.
def fieldOrder : Nat := 0x73eda753299d7d483339d80809a1d80553bda402fffe5bfeffffffff00000001

-- The order of Jubjub's prime-order subgroup.
def jubjubOrder : Nat := 0x0e7db4ea6533afa906673b0101343b00a6682093ccc81082d0970e5ed6f72cb7

instance : NeZero fieldOrder := ⟨by decide⟩

instance : NeZero jubjubOrder := ⟨by decide⟩

abbrev F : Type := Fin fieldOrder

abbrev JubjubScalar : Type := Fin jubjubOrder

theorem fieldOrder_lt : fieldOrder < 256 ^ 32 := by decide

theorem jubjubOrder_lt_fieldOrder : jubjubOrder < fieldOrder := by decide

namespace Field

-- `F::from` of a machine integer.
def ofNat (value : Nat) : F := Fin.ofNat fieldOrder value

theorem ofNat_inj {left right : Nat} (hleft : left < fieldOrder) (hright : right < fieldOrder)
    (hsame : ofNat left = ofNat right) : left = right := by
  have hvalues : left % fieldOrder = right % fieldOrder := Fin.val_inj.2 hsame
  rwa [Nat.mod_eq_of_lt hleft, Nat.mod_eq_of_lt hright] at hvalues

theorem toNatLe_mask_id (bytes : Bytes 32) :
    (bytes.modify 31 (· &&& 0x3f)).toNatLe = bytes.toNatLe % 2 ^ 254 :=
  bytes.toNatLe_modify_top 6 (by decide)

-- A 32-byte identifier enters with bits 254 and 255 cleared.
def fromId (bytes : Bytes 32) : F :=
  ⟨(bytes.modify 31 (· &&& 0x3f)).toNatLe, by
    rw [toNatLe_mask_id]
    exact Nat.lt_trans (Nat.mod_lt _ (by decide)) (by decide)⟩

def fromEpoch (epoch : Epoch) : F := ofNat epoch.get

-- The canonical wire form: 32 little-endian bytes.
def toBytes (value : F) : Bytes 32 := Bytes.ofNatLe 32 value.val

-- Strict decoding: only canonical bytes name a value.
def decode (bytes : Bytes 32) : Option F :=
  if hlt : bytes.toNatLe < fieldOrder then some ⟨bytes.toNatLe, hlt⟩ else none

-- Clears the top two bits: a 254-bit value, below the field order by construction.
def mintSecret (entropy : Bytes 32) : Bytes 32 := entropy.modify 31 (· &&& 0x3f)

-- Total decoding of witness bytes: little-endian interpretation, reduced.
def fromWitnessBytes (bytes : Bytes 32) : F := Fin.ofNat fieldOrder bytes.toNatLe

@[simp] theorem toNatLe_toBytes (value : F) : (toBytes value).toNatLe = value.val :=
  Bytes.toNatLe_ofNatLe (Nat.lt_trans value.isLt fieldOrder_lt)

@[simp] theorem fromWitnessBytes_val (bytes : Bytes 32) :
    (fromWitnessBytes bytes).val = bytes.toNatLe % fieldOrder := rfl

@[simp] theorem fromWitnessBytes_toBytes (value : F) : fromWitnessBytes (toBytes value) = value := by
  apply Fin.ext
  rw [fromWitnessBytes_val, toNatLe_toBytes, Nat.mod_eq_of_lt value.isLt]

theorem decode_eq_some {bytes : Bytes 32} {value : F} :
    decode bytes = some value ↔ bytes.toNatLe < fieldOrder ∧ value = fromWitnessBytes bytes := by
  unfold decode
  by_cases hlt : bytes.toNatLe < fieldOrder
  · have hvalue : fromWitnessBytes bytes = ⟨bytes.toNatLe, hlt⟩ :=
      Fin.ext (Nat.mod_eq_of_lt hlt)
    rw [dif_pos hlt, Option.some_inj, hvalue]
    simp [hlt, eq_comm]
  · rw [dif_neg hlt]
    simp [hlt]

theorem toBytes_inj {left right : F} : toBytes left = toBytes right ↔ left = right := by
  rw [← Bytes.toNatLe_inj, toNatLe_toBytes, toNatLe_toBytes, Fin.val_inj]

theorem fromWitnessBytes_of_lt {bytes : Bytes 32} (hlt : bytes.toNatLe < fieldOrder) :
    toBytes (fromWitnessBytes bytes) = bytes := by
  rw [← Bytes.toNatLe_inj, toNatLe_toBytes, fromWitnessBytes_val, Nat.mod_eq_of_lt hlt]

end Field

end Nymora.Crypto
