import Nymora.Crypto.Field
import Nymora.Lib.Lucas
import Mathlib.Tactic.NormNum.Prime

namespace Nymora.Crypto

-- The factorization of `fieldOrder - 1`, 2-adicity 32 first.
def orderFactors : List Nat :=
  List.replicate 32 2 ++ [3, 11, 19, 10177, 125527, 859267, 906349, 906349, 2508409, 2529403,
    52437899, 254760293, 254760293]

theorem orderFactors_prime : ∀ factor ∈ orderFactors, factor.Prime := by
  intro factor hmem
  simp only [orderFactors, List.mem_append, List.mem_replicate, List.mem_cons, List.not_mem_nil,
    or_false] at hmem
  rcases hmem with ⟨-, rfl⟩ | rfl | rfl | rfl | rfl | rfl | rfl | rfl | rfl | rfl | rfl | rfl |
    rfl | rfl <;> norm_num

theorem fieldOrder_prime : fieldOrder.Prime := by
  apply prime_of_order 7 256 orderFactors
  · decide
  · decide
  · exact orderFactors_prime
  · decide +kernel
  · decide +kernel
  · decide +kernel

namespace Field

theorem mul_eq_zero {left right : F} : left * right = 0 ↔ left = 0 ∨ right = 0 := by
  simp only [← Fin.val_inj, Fin.val_mul, Fin.val_zero]
  rw [← Nat.dvd_iff_mod_eq_zero, fieldOrder_prime.dvd_mul]
  rw [Nat.dvd_iff_mod_eq_zero, Nat.dvd_iff_mod_eq_zero, Nat.mod_eq_of_lt left.isLt,
    Nat.mod_eq_of_lt right.isLt]

end Field

end Nymora.Crypto
