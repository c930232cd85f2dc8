import Nymora.Lib.Base64
import Nymora.Crypto.Armor

namespace Nymora.Crypto.Armor

open Nymora.Core
open Buffers
open Machine

-- The URL-safe alphabet, as the table writes it and the match reads it.
def url : Base64.Alphabet UInt8 where
  symbol index := ALPHABET[index]?.getD 0
  value := sextet
  value_symbol := by decide +kernel
  symbol_value := by
    intro ch value hvalue
    have htable : ∀ byte : Fin 256, ∀ value < 64, sextet (UInt8.ofNat byte) = some value →
        ALPHABET[value]?.getD 0 = UInt8.ofNat byte := by decide +kernel
    have hrange : ∀ byte : Fin 256, ∀ value ∈ sextet (UInt8.ofNat byte), value < 64 := by
      decide +kernel
    have hbyte : UInt8.ofNat (⟨ch.toNat, ch.toNat_lt⟩ : Fin 256) = ch := UInt8.ofNat_toNat
    have hlt : value < 64 := hrange ⟨ch.toNat, ch.toNat_lt⟩ value (by rw [hbyte]; exact hvalue)
    refine ⟨hlt, ?_⟩
    have hsymbol := htable ⟨ch.toNat, ch.toNat_lt⟩ value hlt (by rw [hbyte]; exact hvalue)
    rwa [hbyte] at hsymbol

-- Disjoint shifts add up.
private theorem pack_bytes (a : Nat) {b c : Nat} (hb : b < 256) (hc : c < 256) :
    (a <<< 16) ||| (b <<< 8) ||| c = a * 65536 + b * 256 + c := by
  have hmiddle : b <<< 8 < 2 ^ 16 := by
    rw [Nat.shiftLeft_eq]
    omega
  have hjoined : a <<< 16 + b <<< 8 = (a <<< 8 + b) <<< 8 := by
    simp only [Nat.shiftLeft_eq]
    omega
  rw [← Nat.shiftLeft_add_eq_or_of_lt hmiddle, hjoined, ← Nat.shiftLeft_add_eq_or_of_lt hc]
  simp only [Nat.shiftLeft_eq]
  omega

private theorem pack_sextets (p : Nat) {q r s : Nat} (hq : q < 64) (hr : r < 64) (hs : s < 64) :
    (p <<< 18) ||| (q <<< 12) ||| (r <<< 6) ||| s = p * 262144 + q * 4096 + r * 64 + s := by
  have hsecond : q <<< 12 < 2 ^ 18 := by
    rw [Nat.shiftLeft_eq]
    omega
  have hthird : r <<< 6 < 2 ^ 12 := by
    rw [Nat.shiftLeft_eq]
    omega
  have hjoined : p <<< 18 + q <<< 12 = (p <<< 6 + q) <<< 12 := by
    simp only [Nat.shiftLeft_eq]
    omega
  have hwhole : (p <<< 6 + q) <<< 12 + r <<< 6 = ((p <<< 6 + q) <<< 6 + r) <<< 6 := by
    simp only [Nat.shiftLeft_eq]
    omega
  rw [← Nat.shiftLeft_add_eq_or_of_lt hsecond, hjoined, ← Nat.shiftLeft_add_eq_or_of_lt hthird,
    hwhole, ← Nat.shiftLeft_add_eq_or_of_lt hs]
  simp only [Nat.shiftLeft_eq]
  omega

private theorem and_sextet (value : Nat) : value &&& 63 = value % 64 :=
  Nat.and_two_pow_sub_one_eq_mod value 6

-- One group's characters are those of the codec.
theorem groupChars_one (a : UInt8) : groupChars a none none = Base64.encode url [a] := by
  have hfirst : a.toNat * 65536 / 2 ^ 18 % 64 = a.toNat / 4 := by
    have ha := a.toNat_lt
    omega
  have hsecond : a.toNat * 65536 / 2 ^ 12 % 64 = a.toNat % 4 * 16 := by omega
  have htriple := pack_bytes a.toNat (b := 0) (c := 0) (by decide) (by decide)
  simp only [Nat.zero_mul, Nat.add_zero] at htriple
  simp only [groupChars, Option.getD_none, UInt8.toNat_zero, htriple, and_sextet,
    Nat.shiftRight_eq_div_pow, hfirst, hsecond]
  rfl

theorem groupChars_two (a b : UInt8) : groupChars a (some b) none = Base64.encode url [a, b] := by
  have ha := a.toNat_lt
  have hb := b.toNat_lt
  have hfirst : (a.toNat * 65536 + b.toNat * 256) / 2 ^ 18 % 64 = a.toNat / 4 := by omega
  have hsecond : (a.toNat * 65536 + b.toNat * 256) / 2 ^ 12 % 64 =
      a.toNat % 4 * 16 + b.toNat / 16 := by omega
  have hthird : (a.toNat * 65536 + b.toNat * 256) / 2 ^ 6 % 64 = b.toNat % 16 * 4 := by omega
  have htriple := pack_bytes a.toNat (c := 0) hb (by decide)
  rw [Nat.add_zero] at htriple
  simp only [groupChars, Option.getD_none, Option.getD_some, UInt8.toNat_zero, htriple, and_sextet,
    Nat.shiftRight_eq_div_pow, hfirst, hsecond, hthird]
  rfl

theorem groupChars_three (a b c : UInt8) (rest : List UInt8) :
    groupChars a (some b) (some c) ++ Base64.encode url rest =
      Base64.encode url (a :: b :: c :: rest) := by
  have ha := a.toNat_lt
  have hb := b.toNat_lt
  have hc := c.toNat_lt
  have hfirst : (a.toNat * 65536 + b.toNat * 256 + c.toNat) / 2 ^ 18 % 64 = a.toNat / 4 := by
    omega
  have hsecond : (a.toNat * 65536 + b.toNat * 256 + c.toNat) / 2 ^ 12 % 64 =
      a.toNat % 4 * 16 + b.toNat / 16 := by omega
  have hthird : (a.toNat * 65536 + b.toNat * 256 + c.toNat) / 2 ^ 6 % 64 =
      b.toNat % 16 * 4 + c.toNat / 64 := by omega
  have hfourth : (a.toNat * 65536 + b.toNat * 256 + c.toNat) % 64 = c.toNat % 64 := by omega
  simp only [groupChars, Option.getD_some, pack_bytes a.toNat hb hc, and_sextet,
    Nat.shiftRight_eq_div_pow, hfirst, hsecond, hthird, hfourth]
  rfl

theorem emit_append (out : List UInt8) (position : Nat) (first second : List UInt8) :
    emit out position (first ++ second) =
      (emit out position first).bind fun (next, written) => emit written next second := by
  simp only [emit, overwrite_append, Option.map_bind, Option.bind_map, List.length_append,
    Function.comp_def, Nat.add_assoc]

theorem emit_nil {out : List UInt8} {position : Nat} (hposition : position ≤ out.length) :
    emit out position [] = some (position, out) := by
  simp [emit, overwrite, hposition]

theorem emit_eq_some {out written bytes : List UInt8} {position next : Nat}
    (hemit : emit out position bytes = some (next, written)) :
    next = position + bytes.length ∧ next ≤ out.length ∧ written.length = out.length ∧
      written = out.take position ++ bytes ++ out.drop next := by
  unfold emit at hemit
  obtain ⟨whole, hwrite, heq⟩ := Option.map_eq_some_iff.1 hemit
  obtain ⟨rfl, rfl⟩ := Prod.mk.inj heq
  obtain ⟨hbound, rfl⟩ := overwrite_eq_some hwrite
  refine ⟨rfl, hbound, ?_, rfl⟩
  simp only [List.length_append, List.length_take, List.length_drop]
  omega

-- The buffer once a decoded text is written to its front.
theorem emit_front (bytes out : List UInt8) : emit out 0 bytes =
    if bytes.length ≤ out.length then some (bytes.length, bytes ++ out.drop bytes.length)
    else none := by
  unfold emit overwrite
  by_cases hfits : bytes.length ≤ out.length
  · rw [if_pos (by omega), if_pos hfits, Option.map_some, Nat.zero_add, List.take_zero,
      List.nil_append]
  · rw [if_neg (by omega), if_neg hfits, Option.map_none]

-- The encoding loop writes the codec's characters.
theorem armorLoop_eq (source : List UInt8) {position : Nat} {out : List UInt8}
    (hposition : position ≤ out.length) :
    armorLoop source position out = inBounds (emit out position (Base64.encode url source)) := by
  fun_induction armorLoop source position out with
  | case1 position out => rw [Base64.encode, emit_nil hposition]; rfl
  | case2 a position out => rw [groupChars_one]
  | case3 a b position out => rw [groupChars_two]
  | case4 a b c rest position out ih =>
      rw [← groupChars_three, emit_append]
      cases hemit : emit out position (groupChars a (some b) (some c)) with
      | none => rfl
      | some emitted =>
          obtain ⟨next, written⟩ := emitted
          obtain ⟨_, hnext, hlength, _⟩ := emit_eq_some hemit
          exact ih next written (by omega)

theorem sextet_lt {ch : UInt8} {value : Nat} (hvalue : sextet ch = some value) : value < 64 :=
  (url.symbol_value ch value hvalue).1

private theorem ofNat_congr {left right : Nat} (heq : left % 256 = right % 256) :
    UInt8.ofNat left = UInt8.ofNat right := by
  rw [← UInt8.toNat_inj, UInt8.toNat_ofNat', UInt8.toNat_ofNat']
  exact heq

theorem groupBytes_two (p : Nat) {q : Nat} (hq : q < 64) :
    groupBytes [p, q] = [UInt8.ofNat (p * 4 + q / 16)] := by
  have htriple := pack_sextets p hq (r := 0) (s := 0) (by decide) (by decide)
  simp only [Nat.zero_mul, Nat.add_zero] at htriple
  change [UInt8.ofNat ((p <<< 18 ||| q <<< 12 ||| 0 <<< 6 ||| 0) >>> 16)] = _
  rw [htriple, Nat.shiftRight_eq_div_pow]
  exact congrArg (fun byte => [byte]) (ofNat_congr (by omega))

theorem groupBytes_three (p : Nat) {q r : Nat} (hq : q < 64) (hr : r < 64) :
    groupBytes [p, q, r] = [UInt8.ofNat (p * 4 + q / 16), UInt8.ofNat (q * 16 + r / 4)] := by
  have htriple := pack_sextets p hq hr (s := 0) (by decide)
  rw [Nat.add_zero] at htriple
  change [UInt8.ofNat ((p <<< 18 ||| q <<< 12 ||| r <<< 6 ||| 0) >>> 16),
    UInt8.ofNat ((p <<< 18 ||| q <<< 12 ||| r <<< 6 ||| 0) >>> 8)] = _
  rw [htriple, Nat.shiftRight_eq_div_pow, Nat.shiftRight_eq_div_pow]
  refine congrArg₂ (fun first second => [first, second]) (ofNat_congr ?_) (ofNat_congr ?_)
  · omega
  · omega

theorem groupBytes_four (p : Nat) {q r s : Nat} (hq : q < 64) (hr : r < 64) (hs : s < 64) :
    groupBytes [p, q, r, s] =
      [UInt8.ofNat (p * 4 + q / 16), UInt8.ofNat (q * 16 + r / 4), UInt8.ofNat (r * 64 + s)] := by
  have hfirst : UInt8.ofNat ((p * 262144 + q * 4096 + r * 64 + s) / 2 ^ 16) =
      UInt8.ofNat (p * 4 + q / 16) := ofNat_congr (by omega)
  have hsecond : UInt8.ofNat ((p * 262144 + q * 4096 + r * 64 + s) / 2 ^ 8) =
      UInt8.ofNat (q * 16 + r / 4) := ofNat_congr (by omega)
  have hthird : UInt8.ofNat (p * 262144 + q * 4096 + r * 64 + s) = UInt8.ofNat (r * 64 + s) :=
    ofNat_congr (by omega)
  change [UInt8.ofNat ((p <<< 18 ||| q <<< 12 ||| r <<< 6 ||| s) >>> 16),
    UInt8.ofNat ((p <<< 18 ||| q <<< 12 ||| r <<< 6 ||| s) >>> 8),
    UInt8.ofNat (p <<< 18 ||| q <<< 12 ||| r <<< 6 ||| s)] = _
  rw [pack_sextets p hq hr hs, Nat.shiftRight_eq_div_pow, Nat.shiftRight_eq_div_pow, hfirst,
    hsecond, hthird]

theorem length_of_mapM {chars : List UInt8} {group : List Nat}
    (hgroup : chars.mapM sextet = some group) : group.length = chars.length := by
  induction chars generalizing group with
  | nil =>
      obtain rfl := Option.some_inj.1 hgroup
      rfl
  | cons ch chars ih =>
      simp only [List.mapM_cons, Option.bind_eq_bind, Option.bind_eq_some_iff, Option.pure_def,
        Option.some_inj] at hgroup
      obtain ⟨value, _, values, hvalues, rfl⟩ := hgroup
      rw [List.length_cons, List.length_cons, ih hvalues]

-- A group decodes as the codec has it, whatever the spare bits of a short one.
theorem decodeGroup_eq {chars : List UInt8} (hlong : chars.length ≠ 1) (written : Nat)
    (out : List UInt8) : decodeGroup chars written out =
      okOr ProtocolError.Malformed (((chars.mapM sextet).map groupBytes).bind (emit out written)) := by
  unfold decodeGroup
  cases hgroup : chars.mapM sextet with
  | none => rfl
  | some group =>
      have hlength : group.length ≠ 1 := by rwa [length_of_mapM hgroup]
      change (if group.length = 1 then _ else _) = _
      rw [if_neg hlength]
      rfl

theorem decode_two (p q : UInt8) :
    Base64.decode url [p, q] = ([p, q].mapM sextet).map groupBytes := by
  cases hp : sextet p with
  | none => simp [Base64.decode, url, hp]
  | some pv =>
      cases hq : sextet q with
      | none => simp [Base64.decode, url, hp, hq]
      | some qv =>
          have hbytes := groupBytes_two pv (sextet_lt hq)
          simp [Base64.decode, url, hp, hq, hbytes]

theorem decode_three (p q r : UInt8) :
    Base64.decode url [p, q, r] = ([p, q, r].mapM sextet).map groupBytes := by
  cases hp : sextet p with
  | none => simp [Base64.decode, url, hp]
  | some pv =>
      cases hq : sextet q with
      | none => simp [Base64.decode, url, hp, hq]
      | some qv =>
          cases hr : sextet r with
          | none => simp [Base64.decode, url, hp, hq, hr]
          | some rv =>
              have hbytes := groupBytes_three pv (sextet_lt hq) (sextet_lt hr)
              simp [Base64.decode, url, hp, hq, hr, hbytes]

theorem decode_four (p q r s : UInt8) :
    Base64.decode url [p, q, r, s] = ([p, q, r, s].mapM sextet).map groupBytes := by
  cases hp : sextet p with
  | none => simp [Base64.decode, url, hp]
  | some pv =>
      cases hq : sextet q with
      | none => simp [Base64.decode, url, hp, hq]
      | some qv =>
          cases hr : sextet r with
          | none => simp [Base64.decode, url, hp, hq, hr]
          | some rv =>
              cases hs : sextet s with
              | none => simp [Base64.decode, url, hp, hq, hr, hs]
              | some sv =>
                  have hbytes := groupBytes_four pv (sextet_lt hq) (sextet_lt hr) (sextet_lt hs)
                  simp [Base64.decode, url, hp, hq, hr, hs, hbytes]

-- The decoding loop writes what the codec decodes.
theorem decodeLoop_eq (chars : List UInt8) {written : Nat} {out : List UInt8}
    (hwritten : written ≤ out.length) :
    decodeLoop chars written out =
      okOr ProtocolError.Malformed ((Base64.decode url chars).bind (emit out written)) := by
  fun_induction decodeLoop chars written out with
  | case1 written out => rw [Base64.decode, Option.bind_some, emit_nil hwritten]; rfl
  | case2 p written out =>
      unfold decodeGroup
      cases hp : [p].mapM sextet with
      | none => rfl
      | some group => exact if_pos (length_of_mapM hp)
  | case3 p q written out =>
      rw [decodeGroup_eq (by simp), decode_two]
  | case4 p q r written out =>
      rw [decodeGroup_eq (by simp), decode_three]
  | case5 p q r s rest written out ih =>
      have hgroup := Base64.decode_group url p q r s rest
      rw [hgroup, decodeGroup_eq (by simp), ← decode_four]
      cases hfirst : Base64.decode url [p, q, r, s] with
      | none => rfl
      | some first =>
          have hemits : ((Base64.decode url rest).map (first ++ ·)).bind (emit out written) =
              (Base64.decode url rest).bind fun bytes =>
                (emit out written first).bind fun (next, after) => emit after next bytes := by
            rw [Option.bind_map]
            exact congrArg _ (funext fun bytes => emit_append out written first bytes)
          rw [Option.bind_some, Option.bind_some, hemits]
          cases hemit : emit out written first with
          | none => cases Base64.decode url rest <;> rfl
          | some emitted =>
              obtain ⟨next, after⟩ := emitted
              obtain ⟨_, hnext, hlength, _⟩ := emit_eq_some hemit
              exact ih next after (by omega)

end Nymora.Crypto.Armor
