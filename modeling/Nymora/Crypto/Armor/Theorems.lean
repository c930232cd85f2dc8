import Nymora.Crypto.Armor.Codec
import Nymora.Crypto.Armor.Dressing
import Nymora.Crypto.Reference

namespace Nymora.Crypto.Armor

open Nymora.Core
open Buffers
open Machine

-- Bytes too few for a kind and a checksum are no artifact, and the others split into the three.
theorem artifact_cases (bytes : List UInt8) :
    bytes.length < 1 + CHECK_LEN ∨ ∃ first payload trailer,
      bytes = first :: (payload ++ trailer) ∧ trailer.length = CHECK_LEN := by
  by_cases hshort : bytes.length < 1 + CHECK_LEN
  · exact Or.inl hshort
  · cases bytes with
    | nil => exact absurd (Nat.succ_pos _) hshort
    | cons first rest =>
        have hlong : CHECK_LEN ≤ rest.length := by
          rw [List.length_cons] at hshort
          omega
        refine Or.inr ⟨first, rest.take (rest.length - CHECK_LEN),
          rest.drop (rest.length - CHECK_LEN), by rw [List.take_append_drop], ?_⟩
        rw [List.length_drop]
        omega

section

variable [Primitives] {kind : Kind} {payload out : List UInt8}

-- The armored text: the prefix, and the base64 of kind, payload and checksum.
def armored (kind : Kind) (payload : List UInt8) : List UInt8 :=
  PREFIX ++ Base64.encode url (kind.byte :: (payload ++ check kind payload))

@[simp] theorem length_check (kind : Kind) (payload : List UInt8) :
    (check kind payload).length = CHECK_LEN := by
  simp [check, CHECK_LEN]

theorem length_armored (kind : Kind) (payload : List UInt8) :
    (armored kind payload).length = armoredLen payload.length := by
  rw [armored, List.length_append, Base64.length_encode, armoredLen, base64Len, List.length_cons,
    List.length_append, length_check, CHECK_LEN]
  omega

-- Armoring writes the armored text, or refuses a buffer too short for it.
theorem armor_eq (hroom : armoredLen payload.length ≤ out.length) :
    armor kind payload out =
      .ok (armoredLen payload.length, armored kind payload ++ out.drop (armoredLen payload.length)) := by
  have htotal := length_armored kind payload
  have htarget : slice out 0 (armoredLen payload.length) =
      some (out.take (armoredLen payload.length)) := by
    rw [slice, if_pos ⟨Nat.zero_le _, hroom⟩, List.drop_zero]
  have hlength : (out.take (armoredLen payload.length)).length = armoredLen payload.length := by
    rw [List.length_take, Nat.min_eq_left hroom]
  have hwhole : emit (out.take (armoredLen payload.length)) 0 (armored kind payload) =
      some (armoredLen payload.length, armored kind payload) := by
    rw [emit_front, if_pos (by omega), htotal, List.drop_eq_nil_of_le (by omega), List.append_nil]
  rw [armored, emit_append] at hwhole
  obtain ⟨⟨position, prefixed⟩, hlead, hbody⟩ := Option.bind_eq_some_iff.1 hwhole
  obtain ⟨hposition, hend, hkept, _⟩ := emit_eq_some hlead
  obtain ⟨whole, hwrite, heq⟩ := Option.map_eq_some_iff.1 hlead
  obtain ⟨_, rfl⟩ := Prod.mk.inj heq
  rw [Nat.zero_add] at hposition
  subst hposition
  change emit whole PREFIX.length _ = _ at hbody
  have hloop := armorLoop_eq (kind.byte :: (payload ++ check kind payload))
    (by rw [hkept]; exact hend : PREFIX.length ≤ whole.length)
  rw [hbody] at hloop
  unfold armor
  change (okOr ProtocolError.Malformed (slice out 0 (armoredLen payload.length)) >>= _) = _
  rw [htarget]
  change (inBounds (overwrite (out.take (armoredLen payload.length)) 0 PREFIX) >>= _) = _
  rw [hwrite]
  change (armorLoop (kind.byte :: (payload ++ check kind payload)) PREFIX.length whole >>= _) = _
  rw [hloop]
  exact if_neg (not_not.2 rfl)

-- An artifact is a kind the code knows, a payload and that payload's checksum.
theorem openArtifact_eq (first : UInt8) (payload trailer after : List UInt8)
    (htrailer : trailer.length = CHECK_LEN) :
    openArtifact (first :: (payload ++ trailer)).length (first :: (payload ++ trailer) ++ after) =
      (okOr ProtocolError.Malformed (Kind.fromByte first)).bind fun kind =>
        if trailer ≠ check kind payload then .error (.Err .Malformed)
        else .ok (kind, payload.length,
          payload ++ (first :: (payload ++ trailer) ++ after).drop payload.length) := by
  have hlength : (first :: (payload ++ trailer)).length = payload.length + 5 := by
    simp [htrailer, CHECK_LEN]
  have hpayload : slice (first :: (payload ++ trailer) ++ after) 1 (1 + payload.length) =
      some payload := by
    have hmiddle := slice_middle [first] payload (trailer ++ after)
    simpa using hmiddle
  have hcheck : slice (first :: (payload ++ trailer) ++ after) (1 + payload.length)
      (payload.length + 5) = some trailer := by
    have hmiddle := slice_middle (first :: payload) trailer after
    rw [htrailer, List.length_cons, CHECK_LEN] at hmiddle
    simpa [Nat.add_comm, Nat.add_assoc] using hmiddle
  have hmoved : overwrite (first :: (payload ++ trailer) ++ after) 0 payload =
      some (payload ++ (first :: (payload ++ trailer) ++ after).drop payload.length) := by
    rw [overwrite, if_pos]
    · simp
    · simp only [List.length_append, List.length_cons]
      omega
  have hlen : payload.length + 5 - 1 - CHECK_LEN = payload.length := by
    rw [CHECK_LEN]
    omega
  unfold openArtifact
  rw [hlength, if_neg (by rw [CHECK_LEN]; omega)]
  simp only [hlen, hpayload, hcheck]
  change (okOr ProtocolError.Malformed (Kind.fromByte first) >>= _) = _
  cases Kind.fromByte first with
  | none => rfl
  | some kind =>
      change (if trailer ≠ check kind payload then _ else _) =
        if trailer ≠ check kind payload then _ else _
      by_cases hmatch : trailer = check kind payload
      · rw [if_neg (not_not.2 hmatch), if_neg (not_not.2 hmatch)]
        change (inBounds (overwrite _ 0 payload) >>= _) = _
        rw [hmoved]
        rfl
      · rw [if_pos hmatch, if_pos hmatch]
        rfl

-- What unarming does once the characters are read.
theorem unarmor_eq {text chars : List UInt8} (hchars : armorChars text = .ok chars)
    (out : List UInt8) : unarmor text out =
      (okOr ProtocolError.Malformed ((Base64.decode url chars).bind (emit out 0))).bind fun (written, out) =>
        openArtifact written out := by
  unfold unarmor
  rw [hchars]
  change (decodeLoop chars 0 out >>= _) = _
  rw [decodeLoop_eq chars (Nat.zero_le _)]
  rfl

-- Unarming neither panics nor reads outside its buffers.
theorem unarmor_ne_panic (text out : List UInt8) : unarmor text out ≠ .error .Panic := by
  cases hchars : armorChars text with
  | error fault =>
      rw [unarmor, hchars]
      intro hpanic
      exact armorChars_ne_panic text (hchars.trans (congrArg Except.error (Except.error.inj hpanic)))
  | ok chars =>
      rw [unarmor_eq hchars]
      cases hdecode : Base64.decode url chars with
      | none => exact fun heq => by cases heq
      | some bytes =>
          rw [Option.bind_some, emit_front]
          split
          next hfits =>
            change openArtifact bytes.length (bytes ++ out.drop bytes.length) ≠ _
            rcases artifact_cases bytes with hshort | ⟨first, payload, trailer, rfl, htrailer⟩
            · rw [openArtifact, if_pos hshort]
              exact fun heq => by cases heq
            · rw [openArtifact_eq first payload trailer _ htrailer]
              cases Kind.fromByte first with
              | none => exact fun heq => by cases heq
              | some kind =>
                  change (if trailer ≠ check kind payload then _ else _) ≠ _
                  split
                  · exact fun heq => by cases heq
                  · exact fun heq => by cases heq
          next => exact fun heq => by cases heq

-- What an accepted text decodes to.
theorem decode_of_unarmor {text final : List UInt8} {length : Nat}
    (haccepted : unarmor text out = .ok (kind, length, final)) :
    ∃ chars payload, Dresses text (PREFIX ++ chars) ∧
      Base64.decode url chars = some (kind.byte :: (payload ++ check kind payload)) ∧
      length = payload.length ∧ final.take length = payload := by
  cases hchars : armorChars text with
  | error fault =>
      rw [unarmor, hchars] at haccepted
      cases haccepted
  | ok chars =>
      rw [unarmor_eq hchars] at haccepted
      cases hdecode : Base64.decode url chars with
      | none =>
          rw [hdecode] at haccepted
          cases haccepted
      | some bytes =>
          rw [hdecode, Option.bind_some, emit_front] at haccepted
          split at haccepted
          next hfits =>
            change openArtifact bytes.length (bytes ++ out.drop bytes.length) = _ at haccepted
            rcases artifact_cases bytes with hshort | ⟨first, payload, trailer, rfl, htrailer⟩
            · rw [openArtifact, if_pos hshort] at haccepted
              cases haccepted
            · rw [openArtifact_eq first payload trailer _ htrailer] at haccepted
              cases hkind : Kind.fromByte first with
              | none =>
                  rw [hkind] at haccepted
                  cases haccepted
              | some known =>
                  rw [hkind] at haccepted
                  change (if trailer ≠ check known payload then _ else _) = _ at haccepted
                  split at haccepted
                  next => cases haccepted
                  next hmatch =>
                    obtain ⟨rfl, rfl, rfl⟩ : known = kind ∧ payload.length = length ∧
                        payload ++ _ = final := by simpa using haccepted
                    obtain rfl := Kind.fromByte_eq_some.1 hkind
                    rw [not_not] at hmatch
                    subst hmatch
                    exact ⟨chars, payload, dresses_of_armorChars hchars, hdecode, rfl,
                      List.take_left⟩
          next => cases haccepted

-- The armored text is its own plainest dressing.
theorem dresses_armored (kind : Kind) (payload : List UInt8) :
    Dresses (armored kind payload) (armored kind payload) := by
  refine ⟨[], [], [], Base64.encode url (kind.byte :: (payload ++ check kind payload)), [], [],
    by simp [armored], blank_nil, blank_nil, blank_nil, List.mem_cons_self, ?_⟩
  have htable : ∀ sextet < 64, isSpace (url.symbol sextet) = false := by decide +kernel
  rw [armored, List.filter_eq_self.2]
  intro ch hch
  obtain ⟨sextet, hsextet, rfl⟩ := Base64.mem_encode url hch
  rw [htable sextet hsextet]
  rfl

-- Round trip, whatever the armored text is dressed in.
theorem unarmor_of_dresses {text : List UInt8} (hdresses : Dresses text (armored kind payload))
    (hroom : payload.length + 5 ≤ out.length) :
    ∃ final, unarmor text out = .ok (kind, payload.length, final) ∧
      final.take payload.length = payload := by
  obtain ⟨chars, hchars, hcore⟩ := armorChars_of_dresses hdresses
  obtain rfl := List.append_cancel_left hcore
  have hlength : (kind.byte :: (payload ++ check kind payload)).length = payload.length + 5 := by
    simp [CHECK_LEN]
  have hopened := openArtifact_eq kind.byte payload (check kind payload)
    (out.drop (kind.byte :: (payload ++ check kind payload)).length) (length_check kind payload)
  rw [Kind.fromByte_eq_some.2 rfl] at hopened
  have hread : unarmor text out = openArtifact (kind.byte :: (payload ++ check kind payload)).length
      (kind.byte :: (payload ++ check kind payload) ++
        out.drop (kind.byte :: (payload ++ check kind payload)).length) := by
    rw [unarmor_eq hchars, Base64.decode_encode, Option.bind_some, emit_front,
      if_pos (hlength.trans_le hroom)]
    rfl
  exact ⟨_, (hread.trans hopened).trans (if_neg (not_not.2 rfl)), List.take_left⟩

end

-- The last base64 character of a text leaves the bits it has to spare zero.
def SpareBitsClear (text : List UInt8) : Prop :=
  ∀ core, Dresses text core → Base64.ClearTail url (core.drop PREFIX.length)

theorem spareBitsClear_iff {text chars : List UInt8} (hdresses : Dresses text (PREFIX ++ chars)) :
    SpareBitsClear text ↔ Base64.ClearTail url chars := by
  constructor
  · intro hclear
    have htail := hclear _ hdresses
    rwa [List.drop_left] at htail
  · intro hclear core hcore
    obtain ⟨_, hread, heq⟩ := armorChars_of_dresses hdresses
    obtain ⟨_, hagain, rfl⟩ := armorChars_of_dresses hcore
    rw [hread] at hagain
    obtain rfl := Except.ok.inj hagain
    rwa [List.drop_left, ← List.append_cancel_left heq]

-- Armor round trips through every dressing and never leaves its buffers. An accepted text is
-- the armor of what it returns exactly when its spare bits are zero, which nothing checks.
theorem armor_canonical_iff [Primitives] :
    (∀ kind payload out, armoredLen payload.length ≤ out.length →
      armor kind payload out = .ok (armoredLen payload.length,
        armored kind payload ++ out.drop (armoredLen payload.length))) ∧
    (∀ kind payload, Dresses (armored kind payload) (armored kind payload)) ∧
    (∀ kind payload text out, Dresses text (armored kind payload) →
      payload.length + 5 ≤ out.length → ∃ final,
        unarmor text out = .ok (kind, payload.length, final) ∧
          final.take payload.length = payload) ∧
    (∀ text out kind length final, unarmor text out = .ok (kind, length, final) →
      (Dresses text (armored kind (final.take length)) ↔ SpareBitsClear text)) ∧
    ∀ text out, unarmor text out ≠ .error .Panic := by
  refine ⟨fun _ _ _ => armor_eq, dresses_armored, fun _ _ _ _ => unarmor_of_dresses, ?_,
    unarmor_ne_panic⟩
  intro text out kind length final haccepted
  obtain ⟨chars, payload, hdresses, hdecode, rfl, htake⟩ := decode_of_unarmor haccepted
  rw [htake, spareBitsClear_iff hdresses, ← Base64.encode_eq_iff url hdecode]
  constructor
  · intro hown
    obtain ⟨_, hread, heq⟩ := armorChars_of_dresses hdresses
    obtain ⟨_, hagain, hcore⟩ := armorChars_of_dresses hown
    rw [hread] at hagain
    obtain rfl := Except.ok.inj hagain
    rw [List.append_cancel_left heq]
    exact List.append_cancel_left hcore
  · intro hencode
    rw [armored, hencode]
    exact hdresses

namespace Sample

open scoped Nymora.Crypto.Reference

-- `"nymora1AR6AVEF"`: the armor of the empty bundle but for a spare bit of its last character.
def respelled : List UInt8 := "nymora1AR6AVEF".toUTF8.data.toList

theorem respelled_text_is_accepted :
    unarmor respelled (List.replicate 5 0) = .ok (.Bundle, 0, [1, 30, 128, 84, 65]) ∧
      ¬ Dresses respelled (armored .Bundle []) := by
  refine ⟨by decide +kernel, ?_⟩
  intro hdresses
  obtain ⟨chars, hread, heq⟩ := armorChars_of_dresses hdresses
  have hown : armorChars respelled = .ok (respelled.drop 7) := by decide +kernel
  rw [hown] at hread
  obtain rfl := Except.ok.inj hread
  exact absurd heq (by decide +kernel)

-- A session code as a chat hands it on: in smart quotes, and broken over two lines.
def payload : List UInt8 := "session".toUTF8.data.toList

def body : List UInt8 := "A3Nlc3N\npb27pDSBl ".toUTF8.data.toList

def quoted : List UInt8 := " “ nymora1A3Nlc3N\npb27pDSBl ”\n".toUTF8.data.toList

theorem quoted_starts :
    quoted = [0x20] ++ ([0xe2, 0x80, 0x9c] ++ ([0x20] ++ (PREFIX ++ body)) ++
      [0xe2, 0x80, 0x9d]) ++ [0x0a] ∧
    armored .SessionCode payload = PREFIX ++ body.filter fun ch => !isSpace ch := by
  decide +kernel

theorem quoted_dresses : Dresses quoted (armored .SessionCode payload) := by
  have hblank : ∀ ch, isSpace ch = true → Blank [ch] := by
    intro ch hch other hother
    rwa [List.mem_singleton.1 hother]
  exact ⟨[0x20], _, [0x20], body, _, [0x0a], quoted_starts.1, hblank _ rfl, hblank _ rfl,
    hblank _ rfl, by decide, quoted_starts.2⟩

theorem armor_canonical_iff_quoted : ∃ final,
    unarmor quoted (List.replicate 12 0) = .ok (.SessionCode, payload.length, final) ∧
      final.take payload.length = payload :=
  armor_canonical_iff.2.2.1 .SessionCode payload _ _ quoted_dresses (by decide)

end Sample

end Nymora.Crypto.Armor
