import Mathlib.Data.List.Basic

namespace Base64

variable {κ : Type}

-- Sixty-four characters and the value each one stands for.
structure Alphabet (κ : Type) where
  symbol : Nat → κ
  value : κ → Option Nat
  value_symbol : ∀ sextet < 64, value (symbol sextet) = some sextet
  symbol_value : ∀ char sextet, value char = some sextet → sextet < 64 ∧ symbol sextet = char

variable (alphabet : Alphabet κ)

-- Three bytes as four characters, without padding: a tail of one byte takes two characters, a
-- tail of two takes three.
def encode : List UInt8 → List κ
  | [] => []
  | [a] => [alphabet.symbol (a.toNat / 4), alphabet.symbol (a.toNat % 4 * 16)]
  | [a, b] =>
      [alphabet.symbol (a.toNat / 4), alphabet.symbol (a.toNat % 4 * 16 + b.toNat / 16),
        alphabet.symbol (b.toNat % 16 * 4)]
  | a :: b :: c :: rest =>
      alphabet.symbol (a.toNat / 4) :: alphabet.symbol (a.toNat % 4 * 16 + b.toNat / 16) ::
        alphabet.symbol (b.toNat % 16 * 4 + c.toNat / 64) :: alphabet.symbol (c.toNat % 64) ::
          encode rest

-- What the characters stand for, whatever the last one's spare bits are.
def decode : List κ → Option (List UInt8)
  | [] => some []
  | [_] => none
  | [p, q] => do
      let p ← alphabet.value p
      let q ← alphabet.value q
      return [UInt8.ofNat (p * 4 + q / 16)]
  | [p, q, r] => do
      let p ← alphabet.value p
      let q ← alphabet.value q
      let r ← alphabet.value r
      return [UInt8.ofNat (p * 4 + q / 16), UInt8.ofNat (q * 16 + r / 4)]
  | p :: q :: r :: s :: rest => do
      let p ← alphabet.value p
      let q ← alphabet.value q
      let r ← alphabet.value r
      let s ← alphabet.value s
      let bytes ← decode rest
      return UInt8.ofNat (p * 4 + q / 16) :: UInt8.ofNat (q * 16 + r / 4) ::
        UInt8.ofNat (r * 64 + s) :: bytes

-- The spare bits of the last character of a short group are zero.
def ClearTail : List κ → Prop
  | [_, q] => ∀ sextet, alphabet.value q = some sextet → sextet % 16 = 0
  | [_, _, r] => ∀ sextet, alphabet.value r = some sextet → sextet % 4 = 0
  | _ :: _ :: _ :: _ :: rest => ClearTail rest
  | _ => True

theorem length_encode (bytes : List UInt8) :
    (encode alphabet bytes).length = (bytes.length * 4 + 2) / 3 := by
  fun_induction encode alphabet bytes with
  | case1 => rfl
  | case2 => simp
  | case3 => simp
  | case4 a b c rest ih =>
      simp only [List.length_cons, ih]
      omega

theorem mem_encode {bytes : List UInt8} {char : κ} (hchar : char ∈ encode alphabet bytes) :
    ∃ sextet < 64, char = alphabet.symbol sextet := by
  fun_induction encode alphabet bytes with
  | case1 => cases hchar
  | case2 a =>
      have ha := a.toNat_lt
      simp only [List.mem_cons, List.not_mem_nil, or_false] at hchar
      rcases hchar with rfl | rfl
      all_goals exact ⟨_, by omega, rfl⟩
  | case3 a b =>
      have ha := a.toNat_lt
      have hb := b.toNat_lt
      simp only [List.mem_cons, List.not_mem_nil, or_false] at hchar
      rcases hchar with rfl | rfl | rfl
      all_goals exact ⟨_, by omega, rfl⟩
  | case4 a b c rest ih =>
      have ha := a.toNat_lt
      have hb := b.toNat_lt
      have hc := c.toNat_lt
      simp only [List.mem_cons] at hchar
      rcases hchar with rfl | rfl | rfl | rfl | hrest
      · exact ⟨_, by omega, rfl⟩
      · exact ⟨_, by omega, rfl⟩
      · exact ⟨_, by omega, rfl⟩
      · exact ⟨_, by omega, rfl⟩
      · exact ih hrest

-- A whole group decodes on its own, ahead of the rest.
theorem decode_group (p q r s : κ) (rest : List κ) :
    decode alphabet (p :: q :: r :: s :: rest) =
      (decode alphabet [p, q, r, s]).bind fun first =>
        (decode alphabet rest).map (first ++ ·) := by
  cases hrest : decode alphabet rest <;> cases hp : alphabet.value p <;>
    cases hq : alphabet.value q <;> cases hr : alphabet.value r <;>
    cases hs : alphabet.value s <;> simp [decode, hp, hq, hr, hs, hrest]

-- A byte from the six bits above and the bits below that its first two characters hold.
private theorem ofNat_first (a : UInt8) (low : Nat) (hlow : low < 16) :
    UInt8.ofNat (a.toNat / 4 * 4 + (a.toNat % 4 * 16 + low) / 16) = a := by
  have ha := a.toNat_lt
  rw [← UInt8.toNat_inj, UInt8.toNat_ofNat']
  omega

private theorem ofNat_second (b : UInt8) (high low : Nat) (hlow : low < 4) :
    UInt8.ofNat ((high * 16 + b.toNat / 16) * 16 + (b.toNat % 16 * 4 + low) / 4) = b := by
  have hb := b.toNat_lt
  rw [← UInt8.toNat_inj, UInt8.toNat_ofNat']
  omega

private theorem ofNat_third (c : UInt8) (high : Nat) :
    UInt8.ofNat ((high * 4 + c.toNat / 64) * 64 + c.toNat % 64) = c := by
  have hc := c.toNat_lt
  rw [← UInt8.toNat_inj, UInt8.toNat_ofNat']
  omega

theorem decode_encode (bytes : List UInt8) :
    decode alphabet (encode alphabet bytes) = some bytes := by
  fun_induction encode alphabet bytes with
  | case1 => rfl
  | case2 a =>
      have ha := a.toNat_lt
      have hfirst := ofNat_first a 0 (by decide)
      rw [decode, alphabet.value_symbol _ (by omega), alphabet.value_symbol _ (by omega)]
      rw [Nat.add_zero] at hfirst
      simp only [Option.bind_eq_bind, Option.bind_some, Option.pure_def, hfirst]
  | case3 a b =>
      have ha := a.toNat_lt
      have hb := b.toNat_lt
      have hfirst := ofNat_first a (b.toNat / 16) (by omega)
      have hsecond := ofNat_second b (a.toNat % 4) 0 (by decide)
      rw [decode, alphabet.value_symbol _ (by omega), alphabet.value_symbol _ (by omega),
        alphabet.value_symbol _ (by omega)]
      rw [Nat.add_zero] at hsecond
      simp only [Option.bind_eq_bind, Option.bind_some, Option.pure_def, hfirst, hsecond]
  | case4 a b c rest ih =>
      have ha := a.toNat_lt
      have hb := b.toNat_lt
      have hc := c.toNat_lt
      have hfirst := ofNat_first a (b.toNat / 16) (by omega)
      have hsecond := ofNat_second b (a.toNat % 4) (c.toNat / 64) (by omega)
      have hthird := ofNat_third c (b.toNat % 16)
      rw [decode, alphabet.value_symbol _ (by omega), alphabet.value_symbol _ (by omega),
        alphabet.value_symbol _ (by omega), alphabet.value_symbol _ (by omega), ih]
      simp only [Option.bind_eq_bind, Option.bind_some, Option.pure_def, hfirst, hsecond, hthird]

theorem clearTail_encode (bytes : List UInt8) : ClearTail alphabet (encode alphabet bytes) := by
  fun_induction encode alphabet bytes with
  | case1 => trivial
  | case2 a =>
      intro sextet hvalue
      rw [alphabet.value_symbol _ (by omega)] at hvalue
      obtain rfl := Option.some_inj.1 hvalue
      omega
  | case3 a b =>
      intro sextet hvalue
      rw [alphabet.value_symbol _ (by omega)] at hvalue
      obtain rfl := Option.some_inj.1 hvalue
      omega
  | case4 a b c rest ih => exact ih

-- Decoding is injective on the texts whose last character spares no bit.
theorem encode_of_decode {chars : List κ} {bytes : List UInt8}
    (hdecode : decode alphabet chars = some bytes) (hclear : ClearTail alphabet chars) :
    encode alphabet bytes = chars := by
  fun_induction decode alphabet chars generalizing bytes with
  | case1 =>
      obtain rfl := Option.some_inj.1 hdecode
      rfl
  | case2 => cases hdecode
  | case3 p q =>
      simp only [Option.bind_eq_bind, Option.bind_eq_some_iff, Option.pure_def, Option.some_inj]
        at hdecode
      obtain ⟨pv, hp, qv, hq, rfl⟩ := hdecode
      obtain ⟨hpLt, hpSymbol⟩ := alphabet.symbol_value _ _ hp
      obtain ⟨hqLt, hqSymbol⟩ := alphabet.symbol_value _ _ hq
      have htail := hclear _ hq
      have hbyte : (UInt8.ofNat (pv * 4 + qv / 16)).toNat = pv * 4 + qv / 16 := by
        rw [UInt8.toNat_ofNat', Nat.mod_eq_of_lt (by omega)]
      have hfirst : (pv * 4 + qv / 16) / 4 = pv := by omega
      have hsecond : (pv * 4 + qv / 16) % 4 * 16 = qv := by omega
      rw [encode, hbyte, hfirst, hsecond, hpSymbol, hqSymbol]
  | case4 p q r =>
      simp only [Option.bind_eq_bind, Option.bind_eq_some_iff, Option.pure_def, Option.some_inj]
        at hdecode
      obtain ⟨pv, hp, qv, hq, rv, hr, rfl⟩ := hdecode
      obtain ⟨hpLt, hpSymbol⟩ := alphabet.symbol_value _ _ hp
      obtain ⟨hqLt, hqSymbol⟩ := alphabet.symbol_value _ _ hq
      obtain ⟨hrLt, hrSymbol⟩ := alphabet.symbol_value _ _ hr
      have htail := hclear _ hr
      have hbyte : (UInt8.ofNat (pv * 4 + qv / 16)).toNat = pv * 4 + qv / 16 := by
        rw [UInt8.toNat_ofNat', Nat.mod_eq_of_lt (by omega)]
      have hnext : (UInt8.ofNat (qv * 16 + rv / 4)).toNat = qv % 16 * 16 + rv / 4 := by
        rw [UInt8.toNat_ofNat']
        omega
      have hfirst : (pv * 4 + qv / 16) / 4 = pv := by omega
      have hsecond : (pv * 4 + qv / 16) % 4 * 16 + (qv % 16 * 16 + rv / 4) / 16 = qv := by omega
      have hthird : (qv % 16 * 16 + rv / 4) % 16 * 4 = rv := by omega
      rw [encode, hbyte, hnext, hfirst, hsecond, hthird, hpSymbol, hqSymbol, hrSymbol]
  | case5 p q r s rest ih =>
      simp only [Option.bind_eq_bind, Option.bind_eq_some_iff, Option.pure_def, Option.some_inj]
        at hdecode
      obtain ⟨pv, hp, qv, hq, rv, hr, sv, hs, bytes, hbytes, rfl⟩ := hdecode
      obtain ⟨hpLt, hpSymbol⟩ := alphabet.symbol_value _ _ hp
      obtain ⟨hqLt, hqSymbol⟩ := alphabet.symbol_value _ _ hq
      obtain ⟨hrLt, hrSymbol⟩ := alphabet.symbol_value _ _ hr
      obtain ⟨hsLt, hsSymbol⟩ := alphabet.symbol_value _ _ hs
      have hbyte : (UInt8.ofNat (pv * 4 + qv / 16)).toNat = pv * 4 + qv / 16 := by
        rw [UInt8.toNat_ofNat', Nat.mod_eq_of_lt (by omega)]
      have hnext : (UInt8.ofNat (qv * 16 + rv / 4)).toNat = qv % 16 * 16 + rv / 4 := by
        rw [UInt8.toNat_ofNat']
        omega
      have hlast : (UInt8.ofNat (rv * 64 + sv)).toNat = rv % 4 * 64 + sv := by
        rw [UInt8.toNat_ofNat']
        omega
      have hfirst : (pv * 4 + qv / 16) / 4 = pv := by omega
      have hsecond : (pv * 4 + qv / 16) % 4 * 16 + (qv % 16 * 16 + rv / 4) / 16 = qv := by omega
      have hthird : (qv % 16 * 16 + rv / 4) % 16 * 4 + (rv % 4 * 64 + sv) / 64 = rv := by omega
      have hfourth : (rv % 4 * 64 + sv) % 64 = sv := by omega
      rw [encode, hbyte, hnext, hlast, hfirst, hsecond, hthird, hfourth, hpSymbol, hqSymbol,
        hrSymbol, hsSymbol, ih hbytes hclear]

-- A text is the encoding of what it decodes to exactly when its spare bits are zero.
theorem encode_eq_iff {chars : List κ} {bytes : List UInt8}
    (hdecode : decode alphabet chars = some bytes) :
    encode alphabet bytes = chars ↔ ClearTail alphabet chars := by
  constructor
  · rintro rfl
    exact clearTail_encode alphabet bytes
  · exact encode_of_decode alphabet hdecode

end Base64
