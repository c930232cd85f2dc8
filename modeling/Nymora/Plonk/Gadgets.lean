import Nymora.Lib.Constrained
import Nymora.Crypto.Signature
import Mathlib.Data.Nat.ModEq

namespace Nymora.Plonk

open Nymora.Core
open Nymora.Crypto

-- The circuit library's gadgets that the scalar assignment calls.
structure ZkStdLib where
  assignMany : Bytes 32 → Constrained (Bytes 32)
  assignedFromLeBytes : Bytes 32 → Constrained F
  assertLowerThanFixed : F → Nat → Constrained Unit
  scalarFromLeBytes : Bytes 32 → Constrained JubjubScalar

-- What the library documents: two reductions of one little-endian integer, and a bound on the
-- canonical integer of a field element.
structure ZkStdLib.Documented (stdLib : ZkStdLib) : Prop where
  assignMany_satisfied : ∀ bytes, (stdLib.assignMany bytes).satisfied
  assignMany_value : ∀ bytes, (stdLib.assignMany bytes).value = bytes
  assignedFromLeBytes_satisfied : ∀ bytes, (stdLib.assignedFromLeBytes bytes).satisfied
  assignedFromLeBytes_value : ∀ bytes,
    (stdLib.assignedFromLeBytes bytes).value = Fin.ofNat fieldOrder bytes.toNatLe
  assertLowerThanFixed_satisfied : ∀ value bound,
    (stdLib.assertLowerThanFixed value bound).satisfied ↔ value.val < bound
  scalarFromLeBytes_satisfied : ∀ bytes, (stdLib.scalarFromLeBytes bytes).satisfied
  scalarFromLeBytes_value : ∀ bytes,
    (stdLib.scalarFromLeBytes bytes).value = Fin.ofNat jubjubOrder bytes.toNatLe

-- Assigns a Jubjub scalar from 32 bytes: its scalar form for curve arithmetic and its field
-- form for hashing, with the bound on the field form.
def assignCanonicalScalar (stdLib : ZkStdLib) (bytes : Bytes 32) :
    Constrained (JubjubScalar × F) := do
  let assignedBytes ← stdLib.assignMany bytes
  let asField ← stdLib.assignedFromLeBytes assignedBytes
  let order := jubjubOrder
  stdLib.assertLowerThanFixed asField order
  let asScalar ← stdLib.scalarFromLeBytes assignedBytes
  return (asScalar, asField)

section

variable {stdLib : ZkStdLib} (hstd : stdLib.Documented)
include hstd

theorem assignCanonicalScalar_satisfied (bytes : Bytes 32) :
    (assignCanonicalScalar stdLib bytes).satisfied ↔ bytes.toNatLe % fieldOrder < jubjubOrder := by
  simp [assignCanonicalScalar, hstd.assignMany_satisfied, hstd.assignMany_value,
    hstd.assignedFromLeBytes_satisfied, hstd.assignedFromLeBytes_value,
    hstd.assertLowerThanFixed_satisfied, hstd.scalarFromLeBytes_satisfied]

theorem assignCanonicalScalar_value (bytes : Bytes 32) :
    (assignCanonicalScalar stdLib bytes).value =
      (Fin.ofNat jubjubOrder bytes.toNatLe, Fin.ofNat fieldOrder bytes.toNatLe) := by
  simp [assignCanonicalScalar, hstd.assignMany_value, hstd.assignedFromLeBytes_value,
    hstd.scalarFromLeBytes_value]

end

theorem quotient_lt (bytes : Bytes 32) : bytes.toNatLe / fieldOrder < 3 :=
  Nat.div_lt_of_lt_mul (Nat.lt_trans bytes.toNatLe_lt (by decide))

-- Below three times the field order, one residue modulo the Jubjub order and one modulo the
-- field order leave one quotient.
theorem quotient_eq_of_residues {left right : Nat} (hleft : left / fieldOrder < 3)
    (hright : right / fieldOrder < 3) (hscalar : left % jubjubOrder = right % jubjubOrder)
    (hfield : left % fieldOrder = right % fieldOrder) :
    left / fieldOrder = right / fieldOrder := by
  have hmultiples : ∀ q < 3, ∀ q' < 3,
      fieldOrder * q % jubjubOrder = fieldOrder * q' % jubjubOrder → q = q' := by decide
  have hleftsum := Nat.div_add_mod left fieldOrder
  have hrightsum := Nat.div_add_mod right fieldOrder
  rw [hfield] at hleftsum
  have hmod : fieldOrder * (left / fieldOrder) ≡ fieldOrder * (right / fieldOrder)
      [MOD jubjubOrder] := by
    apply Nat.ModEq.add_right_cancel' (right % fieldOrder)
    rw [hleftsum, hrightsum]
    exact hscalar
  exact hmultiples _ hleft _ hright hmod

theorem residue_eq_of_quotient {left right : Nat}
    (hleft : left % fieldOrder < jubjubOrder) (hright : right % fieldOrder < jubjubOrder)
    (hscalar : left % jubjubOrder = right % jubjubOrder)
    (hquotient : left / fieldOrder = right / fieldOrder) :
    left % fieldOrder = right % fieldOrder := by
  have hleftsum := Nat.div_add_mod left fieldOrder
  have hrightsum := Nat.div_add_mod right fieldOrder
  rw [hquotient] at hleftsum
  have hmod : left % fieldOrder ≡ right % fieldOrder [MOD jubjubOrder] := by
    apply Nat.ModEq.add_left_cancel' (fieldOrder * (right / fieldOrder))
    rw [hleftsum, hrightsum]
    exact hscalar
  exact Nat.ModEq.eq_of_lt_of_lt hmod hleft hright

-- Which accepted byte strings name one key in one way: those with one quotient by the field
-- order. The accepted strings are canonical scalars exactly below the field order.
theorem assignCanonicalScalar_exact (stdLib : ZkStdLib) (hstd : stdLib.Documented) :
    (∀ left right : Bytes 32, (assignCanonicalScalar stdLib left).satisfied →
      (assignCanonicalScalar stdLib right).satisfied →
      (assignCanonicalScalar stdLib left).value.1 = (assignCanonicalScalar stdLib right).value.1 →
      ((assignCanonicalScalar stdLib left).value.2 = (assignCanonicalScalar stdLib right).value.2 ↔
        left.toNatLe / fieldOrder = right.toNatLe / fieldOrder)) ∧
    ∀ bytes : Bytes 32, ((assignCanonicalScalar stdLib bytes).satisfied ↔
        (Signature.scalarFromBytes bytes).isSome) ↔
      (bytes.toNatLe < fieldOrder ∨ jubjubOrder ≤ bytes.toNatLe % fieldOrder) := by
  constructor
  · intro left right hleft hright hscalar
    rw [assignCanonicalScalar_satisfied hstd] at hleft hright
    simp only [assignCanonicalScalar_value hstd, ← Fin.val_inj, Fin.val_ofNat] at hscalar ⊢
    exact ⟨quotient_eq_of_residues (quotient_lt left) (quotient_lt right) hscalar,
      residue_eq_of_quotient hleft hright hscalar⟩
  · intro bytes
    have horder := jubjubOrder_lt_fieldOrder
    have hcanonical : (Signature.scalarFromBytes bytes).isSome ↔ bytes.toNatLe < jubjubOrder := by
      unfold Signature.scalarFromBytes
      split <;> simp_all
    rw [assignCanonicalScalar_satisfied hstd, hcanonical]
    rcases Nat.lt_or_ge bytes.toNatLe fieldOrder with hlt | hge
    · rw [Nat.mod_eq_of_lt hlt]
      exact ⟨fun _ => Or.inl hlt, fun _ => Iff.rfl⟩
    · have hnot : ¬ bytes.toNatLe < jubjubOrder := Nat.not_lt.2 (Nat.le_trans horder.le hge)
      have hnotfield : ¬ bytes.toNatLe < fieldOrder := Nat.not_lt.2 hge
      simp only [hnot, hnotfield, iff_false, false_or, Nat.not_lt]

-- The documented behaviour, as functions.
def ZkStdLib.reference : ZkStdLib where
  assignMany bytes := .assign bytes
  assignedFromLeBytes bytes := .assign (Fin.ofNat fieldOrder bytes.toNatLe)
  assertLowerThanFixed value bound := .constrain (value.val < bound)
  scalarFromLeBytes bytes := .assign (Fin.ofNat jubjubOrder bytes.toNatLe)

theorem ZkStdLib.reference_documented : ZkStdLib.reference.Documented where
  assignMany_satisfied _ := trivial
  assignMany_value _ := rfl
  assignedFromLeBytes_satisfied _ := trivial
  assignedFromLeBytes_value _ := rfl
  assertLowerThanFixed_satisfied _ _ := Iff.rfl
  scalarFromLeBytes_satisfied _ := trivial
  scalarFromLeBytes_value _ := rfl

-- The field order's residue as a scalar.
def wrappedLow : Bytes 32 := Bytes.ofNatLe 32 (fieldOrder % jubjubOrder)

-- The field order itself, whose field form is zero.
def wrappedHigh : Bytes 32 := Bytes.ofNatLe 32 fieldOrder

theorem assignCanonicalScalar_exact_wrapped :
    (assignCanonicalScalar .reference wrappedLow).value.2 ≠
        (assignCanonicalScalar .reference wrappedHigh).value.2 ∧
      ¬ ((assignCanonicalScalar .reference wrappedHigh).satisfied ↔
        (Signature.scalarFromBytes wrappedHigh).isSome) := by
  have hexact := assignCanonicalScalar_exact .reference ZkStdLib.reference_documented
  have hlow : (assignCanonicalScalar .reference wrappedLow).satisfied :=
    (assignCanonicalScalar_satisfied ZkStdLib.reference_documented _).2 (by decide +kernel)
  have hhigh : (assignCanonicalScalar .reference wrappedHigh).satisfied :=
    (assignCanonicalScalar_satisfied ZkStdLib.reference_documented _).2 (by decide +kernel)
  constructor
  · rw [ne_eq, hexact.1 wrappedLow wrappedHigh hlow hhigh (by decide +kernel)]
    decide +kernel
  · rw [hexact.2]
    decide +kernel

-- Two accepted byte strings of one scalar with two field forms, the second no canonical scalar.
theorem one_scalar_two_field_forms :
    (assignCanonicalScalar .reference wrappedLow).satisfied ∧
      (assignCanonicalScalar .reference wrappedHigh).satisfied ∧
      (assignCanonicalScalar .reference wrappedLow).value.1 =
        (assignCanonicalScalar .reference wrappedHigh).value.1 ∧
      (assignCanonicalScalar .reference wrappedLow).value.2 ≠
        (assignCanonicalScalar .reference wrappedHigh).value.2 ∧
      Signature.scalarFromBytes wrappedHigh = none :=
  ⟨(assignCanonicalScalar_satisfied ZkStdLib.reference_documented _).2 (by decide +kernel),
    (assignCanonicalScalar_satisfied ZkStdLib.reference_documented _).2 (by decide +kernel),
    by decide +kernel, by decide +kernel, by decide +kernel⟩

end Nymora.Plonk
