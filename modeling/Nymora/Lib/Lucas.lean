import Mathlib.NumberTheory.LucasPrimality

-- A power modulo `modulus`, one squaring for each binary digit of the exponent.
def powMod (modulus base : Nat) : Nat → Nat → Nat
  | 0, _ => 1 % modulus
  | digits + 1, exponent =>
    let half := powMod modulus base digits (exponent / 2)
    let square := half * half % modulus
    if exponent % 2 = 1 then square * base % modulus else square

theorem powMod_eq {modulus base digits exponent : Nat} (hdigits : exponent < 2 ^ digits) :
    powMod modulus base digits exponent = base ^ exponent % modulus := by
  induction digits generalizing exponent with
  | zero =>
    have hzero : exponent = 0 := by omega
    rw [hzero, powMod, Nat.pow_zero]
  | succ digits ih =>
    have hhalf : exponent / 2 < 2 ^ digits := by omega
    have hsquare : powMod modulus base digits (exponent / 2) *
        powMod modulus base digits (exponent / 2) % modulus =
          base ^ (2 * (exponent / 2)) % modulus := by
      rw [ih hhalf, ← Nat.mul_mod, ← Nat.pow_add, Nat.two_mul]
    rw [powMod, hsquare]
    by_cases hodd : exponent % 2 = 1
    · rw [if_pos hodd, Nat.mod_mul_mod, ← Nat.pow_succ]
      congr 2
      omega
    · rw [if_neg hodd]
      congr 2
      omega

theorem natCast_pow_eq_one_iff {modulus base exponent : Nat} (hmodulus : 1 < modulus) :
    (base : ZMod modulus) ^ exponent = 1 ↔ base ^ exponent % modulus = 1 := by
  have hcast := ZMod.natCast_eq_natCast_iff' (base ^ exponent) 1 modulus
  rw [Nat.mod_eq_of_lt hmodulus] at hcast
  rw [← hcast, Nat.cast_pow, Nat.cast_one]

-- Lucas's test over a factorization of `modulus - 1`: a base whose order is all of it.
theorem prime_of_order {modulus : Nat} (base digits : Nat) (factors : List Nat)
    (hmodulus : 1 < modulus) (hdigits : modulus - 1 < 2 ^ digits)
    (hprime : ∀ factor ∈ factors, factor.Prime) (hproduct : factors.prod = modulus - 1)
    (hfull : powMod modulus base digits (modulus - 1) = 1)
    (hproper : ∀ factor ∈ factors,
      powMod modulus base digits ((modulus - 1) / factor) ≠ 1) : modulus.Prime := by
  apply lucas_primality modulus (base : ZMod modulus)
  · rw [natCast_pow_eq_one_iff hmodulus, ← powMod_eq hdigits]
    exact hfull
  · intro divisor hdivisor hdvd
    rw [← hproduct, hdivisor.prime.dvd_prod_iff] at hdvd
    obtain ⟨factor, hmem, hfactor⟩ := hdvd
    have hsame : divisor = factor := (Nat.prime_dvd_prime_iff_eq hdivisor (hprime _ hmem)).1 hfactor
    have hsmall : (modulus - 1) / factor < 2 ^ digits :=
      Nat.lt_of_le_of_lt (Nat.div_le_self _ _) hdigits
    rw [Ne, natCast_pow_eq_one_iff hmodulus, hsame, ← powMod_eq hsmall]
    exact hproper _ hmem
