import Nymora.Crypto.Armor

namespace Nymora.Crypto.Armor

open Nymora.Core
open Buffers
open Machine

def Blank (text : List UInt8) : Prop := ∀ ch ∈ text, isSpace ch = true

theorem blank_nil : Blank [] := fun _ hch => absurd hch List.not_mem_nil

theorem blank_append {left right : List UInt8} (hleft : Blank left) (hright : Blank right) :
    Blank (left ++ right) := List.forall_mem_append.2 ⟨hleft, hright⟩

-- A text that carries a core: whitespace around it, one tolerated pair of quotes or none with
-- whitespace directly inside, and whitespace anywhere after the prefix.
def Dresses (text core : List UInt8) : Prop :=
  ∃ lead opening inner body closing trail,
    text = lead ++ (opening ++ (inner ++ (PREFIX ++ body)) ++ closing) ++ trail ∧
    Blank lead ∧ Blank inner ∧ Blank trail ∧ (opening, closing) ∈ ([], []) :: PAIRS ∧
    core = PREFIX ++ body.filter fun ch => !isSpace ch

theorem trimWhitespace_eq {lead middle trail : List UInt8} (hlead : Blank lead)
    (htrail : Blank trail) (htight : Tight isSpace middle) :
    trimWhitespace (lead ++ middle ++ trail) = some middle := by
  have hleads : ∀ ch ∈ lead, (!isSpace ch) = false := fun ch hch => by rw [hlead ch hch]; rfl
  have htrails : ∀ ch ∈ trail, (!isSpace ch) = false := fun ch hch => by rw [htrail ch hch]; rfl
  unfold trimWhitespace
  cases hmiddle : middle with
  | nil =>
      have hstart : (lead ++ [] ++ trail).findIdx? (fun ch => !isSpace ch) = none := by
        rw [List.findIdx?_eq_none_iff]
        intro ch hch
        rw [List.append_nil] at hch
        rcases List.mem_append.1 hch with hch | hch
        · exact hleads ch hch
        · exact htrails ch hch
      have hstop : rposition (lead ++ [] ++ trail) (fun ch => !isSpace ch) = none := by
        rw [rposition, Option.map_eq_none_iff, List.findIdx?_eq_none_iff]
        rw [List.findIdx?_eq_none_iff] at hstart
        exact fun ch hch => hstart ch (List.mem_reverse.1 hch)
      rw [hstart, hstop]
      simp [slice]
  | cons head rest =>
      obtain ⟨before, last, hlast⟩ : ∃ before last, middle = before ++ [last] :=
        ⟨middle.dropLast, middle.getLast (by simp [hmiddle]),
          (List.dropLast_concat_getLast (by simp [hmiddle])).symm⟩
      have hhead := htight.head head (by simp [hmiddle])
      have hend := htight.last last (by simp [hlast])
      have hstart : (lead ++ middle ++ trail).findIdx? (fun ch => !isSpace ch) =
          some lead.length := by
        rw [List.append_assoc, hmiddle, List.cons_append]
        exact findIdx?_skip hleads (by rw [hhead]; rfl)
      have hstop : rposition (lead ++ middle ++ trail) (fun ch => !isSpace ch) =
          some (lead ++ before).length := by
        rw [hlast, List.append_assoc, List.append_assoc before, List.singleton_append,
          ← List.append_assoc]
        exact rposition_skip htrails (by rw [hend]; rfl)
      have hlength : (lead ++ before).length + 1 = lead.length + middle.length := by
        rw [hlast]
        simp only [List.length_append, List.length_singleton]
        omega
      rw [← hmiddle, hstart, hstop, Option.map_some, hlength]
      exact slice_middle lead middle trail

theorem unquote_cases (text : List UInt8) :
    ∃ opening inside closing, (opening, closing) ∈ ([], []) :: PAIRS ∧
      text = opening ++ inside ++ closing ∧ unquote text = some inside := by
  unfold unquote
  split
  next opening closing hfound =>
      have hmem := List.mem_of_find?_eq_some hfound
      have hmatch := List.find?_some hfound
      simp only [Bool.and_eq_true, decide_eq_true_eq, List.isPrefixOf_iff_prefix,
        List.isSuffixOf_iff_suffix] at hmatch
      obtain ⟨⟨hlength, rest, rfl⟩, hsuffix⟩ := hmatch
      have hshort : closing.length ≤ rest.length := by
        rw [List.length_append] at hlength
        omega
      obtain ⟨inside, rfl⟩ :=
        List.suffix_of_suffix_length_le hsuffix (List.suffix_append opening rest) hshort
      have hstop : (opening ++ (inside ++ closing)).length - closing.length =
          opening.length + inside.length := by
        simp only [List.length_append]
        omega
      refine ⟨opening, inside, closing, List.mem_cons_of_mem _ hmem, by simp, ?_⟩
      rw [hstop, ← List.append_assoc, slice_middle]
  next => exact ⟨[], text, [], List.mem_cons_self, by simp, rfl⟩

-- No earlier pair opens with the same bytes.
theorem find?_quoted {opening closing : List UInt8} (hpair : (opening, closing) ∈ PAIRS)
    (inside : List UInt8) :
    PAIRS.find? (fun (opening', closing') =>
      decide ((opening ++ inside ++ closing).length ≥ opening'.length + closing'.length) &&
        opening'.isPrefixOf (opening ++ inside ++ closing) &&
          closing'.isSuffixOf (opening ++ inside ++ closing)) = some (opening, closing) := by
  have hmatch : (decide ((opening ++ inside ++ closing).length ≥ opening.length + closing.length) &&
      opening.isPrefixOf (opening ++ inside ++ closing) &&
        closing.isSuffixOf (opening ++ inside ++ closing)) = true := by
    simp only [Bool.and_eq_true, decide_eq_true_eq, List.isPrefixOf_iff_prefix,
      List.isSuffixOf_iff_suffix]
    refine ⟨⟨?_, inside ++ closing, by simp⟩, List.suffix_append _ _⟩
    simp only [List.length_append]
    omega
  simp only [PAIRS, List.mem_cons, Prod.mk.injEq, List.not_mem_nil, or_false] at hpair
  rcases hpair with ⟨rfl, rfl⟩ | ⟨rfl, rfl⟩ | ⟨rfl, rfl⟩ | ⟨rfl, rfl⟩
  all_goals simp [PAIRS, List.find?_cons, List.isPrefixOf] at hmatch ⊢
  all_goals rw [List.isSuffixOf_iff_suffix.2 hmatch]

-- Text between a pair of quotes loses exactly that pair.
theorem unquote_quoted {opening closing : List UInt8} (hpair : (opening, closing) ∈ PAIRS)
    (inside : List UInt8) : unquote (opening ++ inside ++ closing) = some inside := by
  have hstop : (opening ++ inside ++ closing).length - closing.length =
      opening.length + inside.length := by
    simp only [List.length_append]
    omega
  rw [unquote, find?_quoted hpair]
  dsimp only
  rw [hstop, slice_middle]

-- Quotes are no whitespace.
theorem tight_quoted {opening closing : List UInt8} (hpair : (opening, closing) ∈ PAIRS)
    (inside : List UInt8) : Tight isSpace (opening ++ inside ++ closing) := by
  simp only [PAIRS, List.mem_cons, Prod.mk.injEq, List.not_mem_nil, or_false] at hpair
  rcases hpair with ⟨rfl, rfl⟩ | ⟨rfl, rfl⟩ | ⟨rfl, rfl⟩ | ⟨rfl, rfl⟩
  all_goals
    refine ⟨by simp [isSpace], fun ch hch => ?_⟩
    rw [List.getLast?_append] at hch
    simp only [List.getLast?_cons_cons, List.getLast?_singleton, Option.some_or,
      Option.mem_def, Option.some_inj] at hch
    subst hch
    decide

theorem PREFIX_eq : PREFIX = [110, 121, 109, 111, 114, 97, 49] := by decide +kernel

-- Text that opens with the prefix is not quoted.
theorem unquote_prefixed (body : List UInt8) :
    unquote (PREFIX ++ body) = some (PREFIX ++ body) := by
  obtain ⟨opening, inside, closing, hpair, htext, hunquote⟩ := unquote_cases (PREFIX ++ body)
  rw [hunquote, htext]
  rw [PREFIX_eq] at htext
  simp only [PAIRS, List.mem_cons, Prod.mk.injEq, List.not_mem_nil, or_false] at hpair
  rcases hpair with ⟨rfl, rfl⟩ | ⟨rfl, rfl⟩ | ⟨rfl, rfl⟩ | ⟨rfl, rfl⟩ | ⟨rfl, rfl⟩
  · simp
  all_goals simp at htext

theorem stripPrefix_eq_some {text body : List UInt8} :
    stripPrefix text = some body ↔ text = PREFIX ++ body := by
  unfold stripPrefix
  constructor
  · intro hstrip
    split at hstrip
    next hstarts =>
      obtain ⟨rest, rfl⟩ := List.isPrefixOf_iff_prefix.1 hstarts
      rw [List.drop_left, Option.some_inj] at hstrip
      rw [hstrip]
    next => cases hstrip
  · rintro rfl
    rw [if_pos (List.isPrefixOf_iff_prefix.2 (List.prefix_append _ _)), List.drop_left]

-- A body under the prefix keeps no whitespace at its end once the text is trimmed.
theorem exists_tight_body (body : List UInt8) :
    ∃ kept trail, body = kept ++ trail ∧ Blank trail ∧ Tight isSpace (PREFIX ++ kept) := by
  obtain ⟨kept, trail, hsplit, htrail, hlast⟩ := exists_trimmed_right isSpace body
  refine ⟨kept, trail, hsplit, htrail, ?_, ?_⟩
  · rw [PREFIX_eq]
    simp [isSpace]
  · intro ch hch
    rw [List.getLast?_append] at hch
    cases hkept : kept.getLast? with
    | some last =>
        rw [hkept] at hch hlast
        exact hlast ch (by simpa using hch)
    | none =>
        rw [hkept, PREFIX_eq] at hch
        obtain rfl : ch = 49 := by simpa [eq_comm] using hch
        decide

theorem filter_blank {text : List UInt8} (hblank : Blank text) :
    (text.filter fun ch => !isSpace ch) = [] := by
  rw [List.filter_eq_nil_iff]
  intro ch hch
  simp [hblank ch hch]

theorem armorChars_eq {text trimmed inside stripped : List UInt8}
    (htrimmed : trimWhitespace text = some trimmed) (hinside : unquote trimmed = some inside)
    (hstripped : trimWhitespace inside = some stripped) :
    armorChars text = (okOr ProtocolError.Malformed (stripPrefix stripped)).map fun body =>
      body.filter fun ch => !isSpace ch := by
  unfold armorChars
  rw [htrimmed]
  change (inBounds (unquote trimmed) >>= _) = _
  rw [hinside]
  change (inBounds (trimWhitespace inside) >>= _) = _
  rw [hstripped]
  change (okOr ProtocolError.Malformed (stripPrefix stripped) >>= _) = _
  cases stripPrefix stripped <;> rfl

-- The code's own reading of a text is the dressing it has, if it has one.
theorem armorChars_of_dresses {text core : List UInt8} (hdresses : Dresses text core) :
    ∃ chars, armorChars text = .ok chars ∧ core = PREFIX ++ chars := by
  obtain ⟨lead, opening, inner, body, closing, trail, rfl, hlead, hinner, htrail, hpair, rfl⟩ :=
    hdresses
  obtain ⟨kept, rest, rfl, hrest, htight⟩ := exists_tight_body body
  have hchars : ((kept ++ rest).filter fun ch => !isSpace ch) =
      kept.filter fun ch => !isSpace ch := by
    rw [List.filter_append, filter_blank hrest, List.append_nil]
  have hstrip : stripPrefix (PREFIX ++ kept) = some kept := stripPrefix_eq_some.2 rfl
  refine ⟨_, ?_, rfl⟩
  rw [hchars]
  rcases List.mem_cons.1 hpair with hnone | hquoted
  · obtain ⟨rfl, rfl⟩ := Prod.mk.inj hnone
    have houter : trimWhitespace (lead ++ ([] ++ (inner ++ (PREFIX ++ (kept ++ rest))) ++ []) ++
        trail) = some (PREFIX ++ kept) := by
      have hends := trimWhitespace_eq (blank_append hlead hinner) (blank_append hrest htrail) htight
      simpa only [List.nil_append, List.append_nil, List.append_assoc] using hends
    have hinside : trimWhitespace (PREFIX ++ kept) = some (PREFIX ++ kept) := by
      have hends := trimWhitespace_eq blank_nil blank_nil htight
      simpa only [List.nil_append, List.append_nil] using hends
    rw [armorChars_eq houter (unquote_prefixed kept) hinside, hstrip]
    rfl
  · have houter := trimWhitespace_eq hlead htrail
      (tight_quoted hquoted (inner ++ (PREFIX ++ (kept ++ rest))))
    have hinside : trimWhitespace (inner ++ (PREFIX ++ (kept ++ rest))) =
        some (PREFIX ++ kept) := by
      have hends := trimWhitespace_eq hinner hrest htight
      simpa only [List.append_assoc] using hends
    rw [armorChars_eq houter (unquote_quoted hquoted _) hinside, hstrip]
    rfl

-- What the code reads is a dressing of what it reads.
theorem dresses_of_armorChars {text chars : List UInt8} (hchars : armorChars text = .ok chars) :
    Dresses text (PREFIX ++ chars) := by
  obtain ⟨lead, trimmed, trail, rfl, hlead, htrail, htight⟩ := exists_tight isSpace text
  obtain ⟨opening, inside, closing, hpair, rfl, hunquote⟩ := unquote_cases trimmed
  obtain ⟨inner, stripped, rest, rfl, hinner, hrest, hinsideTight⟩ := exists_tight isSpace inside
  rw [armorChars_eq (trimWhitespace_eq hlead htrail htight) hunquote
    (trimWhitespace_eq hinner hrest hinsideTight)] at hchars
  cases hstrip : stripPrefix stripped with
  | none =>
      rw [hstrip] at hchars
      cases hchars
  | some body =>
      rw [hstrip] at hchars
      obtain rfl := Except.ok.inj hchars
      obtain rfl := stripPrefix_eq_some.1 hstrip
      refine ⟨lead, opening, inner, body ++ rest, closing, trail, by simp, hlead, hinner, htrail,
        hpair, ?_⟩
      rw [List.filter_append, filter_blank hrest, List.append_nil]

-- Reading a text never leaves its bounds.
theorem armorChars_ne_panic (text : List UInt8) : armorChars text ≠ .error .Panic := by
  obtain ⟨lead, trimmed, trail, rfl, hlead, htrail, htight⟩ := exists_tight isSpace text
  obtain ⟨opening, inside, closing, hpair, rfl, hunquote⟩ := unquote_cases trimmed
  obtain ⟨inner, stripped, rest, rfl, hinner, hrest, hinsideTight⟩ := exists_tight isSpace inside
  rw [armorChars_eq (trimWhitespace_eq hlead htrail htight) hunquote
    (trimWhitespace_eq hinner hrest hinsideTight)]
  cases stripPrefix stripped with
  | none => exact fun heq => by cases heq
  | some body => exact fun heq => by cases heq

end Nymora.Crypto.Armor
