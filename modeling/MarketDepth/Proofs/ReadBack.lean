/-
**What is written is read back.**

The writer gives a text to every value that has one: numbers that fit a word, strings with a text,
and arrays and objects of such values.  Whatever stands behind that text, if only it cannot be taken
for a part of it, the reader finds the value there and leaves the rest.  Strings are read back
character by character: one that is escaped comes back as an escape of one letter or of four hex
digits, and no character is written as half of a surrogate pair.

Main definitions:

* `MarketDepth.Json.pieceOf` — the piece of a string literal as which a character is written;
* `MarketDepth.Json.hasText` — the value has a text;
* `MarketDepth.Json.Closes` — **what may stand behind a value.**

Main results:

* `MarketDepth.Json.readText_flatMap_escape` — strings are read back;
* `MarketDepth.Json.readNumber_toDigits` — and so are numbers;
* `MarketDepth.Json.readValue_render` — **every value is read back.**
-/

import MarketDepth.Json.Reader
import MarketDepth.Json.Writer

set_option relaxedAutoImplicit false
set_option autoImplicit false

namespace MarketDepth.Json

/-! ### Strings -/

theorem hexDigit?_digitChar : ∀ d, d < 16 → hexDigit? (Nat.digitChar d) = some d := by decide

/-- A character below U+0020 is spelled by two hex digits. -/
theorem unit?_digitChar {n : Nat} (h : n < 0x20) :
    unit? '0' '0' (Nat.digitChar (n / 16)) (Nat.digitChar (n % 16)) = some n := by
  have hzero : hexDigit? '0' = some 0 := by decide
  rw [unit?, hzero, hexDigit?_digitChar (n / 16) (by omega),
    hexDigit?_digitChar (n % 16) (by omega)]
  simp only [Option.bind_eq_bind, Option.bind_some, Option.pure_def, Option.some.injEq]
  omega

/-- **The piece of a string literal as which a character is written.** -/
def pieceOf (c : Char) : Piece :=
  if c.toNat < 0x20 ∧ c ∉ ['\x08', '\x0c', '\n', '\r', '\t'] then .unit c.toNat else .char c

section Pieces

variable {cs rest : List Char} {pieces : List Piece} (h : readPieces cs = some (pieces, rest))

include h

theorem readPieces_letter {e c : Char} (hescape : escape? e = some c) :
    readPieces ('\\' :: e :: cs) = some (.char c :: pieces, rest) := by
  have hu : e ≠ 'u' := by
    rintro rfl
    cases hescape
  rw [readPieces, hescape]
  · simp [h]
  · intro _ _ _ _ _ he
    exact absurd he hu

theorem readPieces_unit {n : Nat} (hn : n < 0x20) :
    readPieces ('\\' :: 'u' :: '0' :: '0' :: Nat.digitChar (n / 16) ::
      Nat.digitChar (n % 16) :: cs) = some (.unit n :: pieces, rest) := by
  rw [readPieces, unit?_digitChar hn]
  simp [h]

theorem readPieces_plain {c : Char} (hquote : c ≠ '"') (hbackslash : c ≠ '\\')
    (hcontrol : ¬ c.toNat < 0x20) : readPieces (c :: cs) = some (.char c :: pieces, rest) := by
  rw [readPieces.eq_def]
  split <;> simp_all

/-- **A character is read back as its piece.** -/
theorem readPieces_escape (c : Char) :
    readPieces (escape c ++ cs) = some (pieceOf c :: pieces, rest) := by
  by_cases hspecial : c ∈ ['"', '\\', '\x08', '\x0c', '\n', '\r', '\t']
  · have hletter : ∃ e, escape c = ['\\', e] ∧ escape? e = some c ∧ pieceOf c = .char c := by
      simp only [List.mem_cons, List.not_mem_nil, or_false] at hspecial
      rcases hspecial with rfl | rfl | rfl | rfl | rfl | rfl | rfl <;>
        exact ⟨_, rfl, rfl, rfl⟩
    obtain ⟨e, hescape, hchar, hpiece⟩ := hletter
    rw [hescape, hpiece]
    exact readPieces_letter h hchar
  · simp only [List.mem_cons, List.not_mem_nil, or_false, not_or] at hspecial
    obtain ⟨hquote, hbackslash, hb, hf, hn, hr, ht⟩ := hspecial
    by_cases hcontrol : c.toNat < 0x20
    · have hescape : escape c = ['\\', 'u', '0', '0', Nat.digitChar (c.toNat / 16),
          Nat.digitChar (c.toNat % 16)] := by
        simp [escape, hquote, hbackslash, hb, hf, hn, hr, ht, hcontrol]
      have hpiece : pieceOf c = .unit c.toNat := by
        simp [pieceOf, hcontrol, hb, hf, hn, hr, ht]
      rw [hescape, hpiece]
      exact readPieces_unit h hcontrol
    · have hescape : escape c = [c] := by
        simp [escape, hquote, hbackslash, hb, hf, hn, hr, ht, hcontrol]
      have hpiece : pieceOf c = .char c := by
        simp [pieceOf, hcontrol]
      rw [hescape, hpiece]
      exact readPieces_plain h hquote hbackslash hcontrol

end Pieces

theorem readPieces_flatMap_escape (text rest : List Char) :
    readPieces (text.flatMap escape ++ '"' :: rest) = some (text.map pieceOf, rest) := by
  induction text with
  | nil => rw [List.flatMap_nil, List.nil_append, readPieces, List.map_nil]
  | cons c text ih =>
      rw [List.flatMap_cons, List.append_assoc, readPieces_escape ih, List.map_cons]

/-- A unit below U+0020 is a character of its own. -/
theorem joinPieces_unit {n : Nat} (hn : n < 0x20) (pieces : List Piece) :
    joinPieces (.unit n :: pieces) = (joinPieces pieces).map (Char.ofNat n :: ·) := by
  have hhigh : isHighSurrogate n = false := by simp [isHighSurrogate]; omega
  have hlow : isLowSurrogate n = false := by simp [isLowSurrogate]; omega
  rw [joinPieces.eq_def]
  split <;> simp_all

/-- **The pieces of a text spell the text.** -/
theorem joinPieces_map_pieceOf (text : List Char) :
    joinPieces (text.map pieceOf) = some text := by
  induction text with
  | nil => rfl
  | cons c text ih =>
      rw [List.map_cons, pieceOf]
      split
      case isTrue hunit => rw [joinPieces_unit hunit.1, ih, Char.ofNat_toNat, Option.map_some]
      case isFalse => rw [joinPieces, ih, Option.map_some]

/-- **Strings are read back.** -/
theorem readText_flatMap_escape (text : String) (rest : List Char) :
    readText (text.toList.flatMap escape ++ '"' :: rest) = some (some text, rest) := by
  simp only [readText, readPieces_flatMap_escape, Option.map_some, joinPieces_map_pieceOf,
    String.ofList_toList]

/-! ### What follows a value -/

/-- **What may stand behind a value** in a text: its end, a comma, or a closing bracket. -/
def Closes (rest : List Char) : Prop :=
  ∀ c ∈ rest.head?, c = ',' ∨ c = ']' ∨ c = '}'

theorem closes_nil : Closes [] := nofun

theorem closes_cons {c : Char} (h : c = ',' ∨ c = ']' ∨ c = '}') (rest : List Char) :
    Closes (c :: rest) := by
  intro c' hc'
  rw [List.head?_cons, Option.mem_some_iff] at hc'
  rwa [← hc']

/-! ### Numbers -/

/-- The digits of a number are found in front of what closes it. -/
theorem spanDigits_toDigits (n : Nat) {rest : List Char} (h : Closes rest) :
    spanDigits (Nat.toDigits 10 n ++ rest) = (Nat.toDigits 10 n, rest) := by
  have hdigits : ∀ c ∈ Nat.toDigits 10 n, c.isDigit = true := fun c hc =>
    Nat.isDigit_of_mem_toDigits (by decide) (by decide) hc
  have hrest : rest.takeWhile Char.isDigit = [] ∧ rest.dropWhile Char.isDigit = rest := by
    cases rest with
    | nil => exact ⟨rfl, rfl⟩
    | cons c cs =>
        have hc : c.isDigit = false := by
          rcases h c (by simp) with rfl | rfl | rfl <;> rfl
        exact ⟨by rw [List.takeWhile_cons_of_neg (by simp [hc])],
          by rw [List.dropWhile_cons_of_neg (by simp [hc])]⟩
  rw [spanDigits, List.takeWhile_append_of_pos hdigits, List.dropWhile_append_of_pos hdigits,
    hrest.1, hrest.2, List.append_nil]

/-- No digit stands behind a leading zero. -/
theorem eq_nil_of_toDigits_eq_zero_cons {n : Nat} {cs : List Char}
    (h : Nat.toDigits 10 n = '0' :: cs) : cs = [] := by
  induction n using Nat.strongRecOn generalizing cs with
  | ind n ih =>
      rw [Nat.toDigits_eq_if (by decide)] at h
      split at h
      · exact (List.cons.inj h).2.symm
      case isFalse hlarge =>
        -- the digits in front of the last one would be a single zero
        obtain ⟨c, ds, hds⟩ :=
          List.exists_cons_of_ne_nil (Nat.toDigits_ne_nil (n := n / 10) (b := 10))
        rw [hds, List.cons_append] at h
        obtain ⟨rfl, -⟩ := List.cons.inj h
        obtain rfl := ih (n / 10) (by omega) hds
        have hzero : n / 10 = 0 := by
          rw [← Nat.ofDigitChars_ten_toDigits (n := n / 10), hds]
          rfl
        omega

theorem readWhole_toDigits (n : Nat) {rest : List Char} (h : Closes rest) :
    readWhole (Nat.toDigits 10 n ++ rest) = some (Nat.toDigits 10 n, rest) := by
  rw [readWhole, spanDigits_toDigits n h]
  split
  case h_1 hnil => exact absurd (congrArg Prod.fst hnil) Nat.toDigits_ne_nil
  case h_2 c cs rest' hzero =>
    have hcs := eq_nil_of_toDigits_eq_zero_cons (congrArg Prod.fst hzero)
    cases hcs
  case h_3 => rfl

theorem readFraction_of_closes {rest : List Char} (h : Closes rest) :
    readFraction rest = some (none, rest) := by
  cases rest with
  | nil => rfl
  | cons c cs => rcases h c (by simp) with rfl | rfl | rfl <;> rfl

theorem readExponent_of_closes {rest : List Char} (h : Closes rest) :
    readExponent rest = some (none, rest) := by
  cases rest with
  | nil => rfl
  | cons c cs => rcases h c (by simp) with rfl | rfl | rfl <;> rfl

/-- The first digit of a number. -/
theorem exists_toDigits_eq_cons (n : Nat) :
    ∃ c cs, Nat.toDigits 10 n = c :: cs ∧ c.isDigit = true := by
  obtain ⟨c, cs, hcs⟩ := List.exists_cons_of_ne_nil (Nat.toDigits_ne_nil (n := n) (b := 10))
  have hmem : c ∈ Nat.toDigits 10 n := by
    rw [hcs]
    exact List.mem_cons_self
  exact ⟨c, cs, hcs, Nat.isDigit_of_mem_toDigits (by decide) (by decide) hmem⟩

/-- **Numbers are read back.** -/
theorem readNumber_toDigits (n : UInt64) {rest : List Char} (h : Closes rest) :
    readNumber (Nat.toDigits 10 n.toNat ++ rest) = some (.natural n, rest) := by
  have hvalue : numberOf false (Nat.toDigits 10 n.toNat) none none = .natural n := by
    rw [numberOf, digitsValue, Nat.ofDigitChars_ten_toDigits, if_pos n.toNat_lt_size,
      UInt64.ofNat_toNat]
  have hwhole := readWhole_toDigits n.toNat h
  obtain ⟨c, cs, hcs, hc⟩ := exists_toDigits_eq_cons n.toNat
  rw [hcs] at hwhole hvalue ⊢
  rw [List.cons_append] at hwhole ⊢
  unfold readNumber
  split
  next negative cs' hsign =>
    split at hsign
    next hminus =>
      obtain ⟨rfl, -⟩ := List.cons.inj hminus
      cases hc
    next =>
      obtain ⟨rfl, rfl⟩ := Prod.mk.inj hsign
      simp [hwhole, readFraction_of_closes h, readExponent_of_closes h, hvalue]

/-! ### Values that have a text -/

mutual

/-- **The value has a text:** no mark that only reading leaves is in it. -/
def hasText : Json → Bool
  | .array items => hasTextItems items
  | .object members => hasTextMembers members
  | .string text => text.isSome
  | .number _ | .broken => false
  | .null | .bool _ | .natural _ => true

/-- So have the items. -/
def hasTextItems : List Json → Bool
  | [] => true
  | v :: vs => hasText v && hasTextItems vs

/-- So have the members and their keys. -/
def hasTextMembers : List (Option String × Json) → Bool
  | [] => true
  | (k, v) :: ms => k.isSome && hasText v && hasTextMembers ms

end

theorem skipBlanks_cons {c : Char} (h : isBlank c = false) (cs : List Char) :
    skipBlanks (c :: cs) = c :: cs :=
  List.dropWhile_cons_of_neg (by simp [h])

theorem isBlank_of_isDigit {c : Char} (h : c.isDigit = true) : isBlank c = false := by
  rw [Bool.eq_false_iff]
  intro hblank
  simp only [isBlank, Bool.or_eq_true, beq_iff_eq] at hblank
  rcases hblank with ((rfl | rfl) | rfl) | rfl <;> cases h

/-- A text begins with a character that is neither blank nor closes an array. -/
theorem exists_render_eq_cons {v : Json} (h : v.hasText = true) :
    ∃ c cs, render v = c :: cs ∧ isBlank c = false ∧ c ≠ ']' := by
  cases v with
  | null => exact ⟨_, _, rfl, rfl, by decide⟩
  | bool value => cases value <;> exact ⟨_, _, rfl, rfl, by decide⟩
  | natural n =>
      obtain ⟨c, cs, hcs, hdigit⟩ := exists_toDigits_eq_cons n.toNat
      refine ⟨c, cs, hcs, isBlank_of_isDigit hdigit, ?_⟩
      rintro rfl
      cases hdigit
  | string text =>
      cases text with
      | none => cases h
      | some text => exact ⟨_, _, rfl, rfl, by decide⟩
  | array items => exact ⟨_, _, rfl, rfl, by decide⟩
  | object members => exact ⟨_, _, rfl, rfl, by decide⟩
  | number finite => cases h
  | broken => cases h

theorem renderItems_cons_cons (v v' : Json) (vs : List Json) :
    renderItems (v :: v' :: vs) = render v ++ ',' :: renderItems (v' :: vs) := rfl

theorem renderMembers_cons_cons (key : String) (v : Json) (m : Option String × Json)
    (ms : List (Option String × Json)) :
    renderMembers ((some key, v) :: m :: ms) =
      quote key ++ ':' :: render v ++ ',' :: renderMembers (m :: ms) := rfl

theorem exists_renderItems_eq_cons {v : Json} {vs : List Json}
    (h : hasTextItems (v :: vs) = true) :
    ∃ c cs, renderItems (v :: vs) = c :: cs ∧ isBlank c = false ∧ c ≠ ']' := by
  rw [hasTextItems, Bool.and_eq_true] at h
  obtain ⟨c, cs, hcs, hblank, hclose⟩ := exists_render_eq_cons h.1
  cases vs with
  | nil => exact ⟨c, cs, hcs, hblank, hclose⟩
  | cons v' vs => exact ⟨c, _, by rw [renderItems_cons_cons, hcs, List.cons_append], hblank, hclose⟩

theorem exists_renderMembers_eq_cons (m : Option String × Json)
    (ms : List (Option String × Json)) : ∃ cs, renderMembers (m :: ms) = '"' :: cs := by
  cases ms <;> exact ⟨_, rfl⟩

/-! ### One step of the reader -/

section Steps

variable {fuel : Nat} {cs cs' rest : List Char}

theorem readValue_natural (fuel : Nat) (n : UInt64) (h : Closes rest) :
    readValue (fuel + 1) (Nat.toDigits 10 n.toNat ++ rest) = (.natural n, rest) := by
  have hnumber := readNumber_toDigits n h
  obtain ⟨c, ds, hds, hdigit⟩ := exists_toDigits_eq_cons n.toNat
  rw [hds, List.cons_append] at hnumber ⊢
  rw [readValue, skipBlanks_cons (isBlank_of_isDigit hdigit)]
  split <;> simp_all

theorem readValue_array {items : List Json} (hread : readItems fuel cs = (items, rest))
    (hopen : ∃ c ds, cs = c :: ds ∧ isBlank c = false ∧ c ≠ ']') :
    readValue (fuel + 1) ('[' :: cs) = (.array items, rest) := by
  obtain ⟨c, ds, rfl, hblank, hclose⟩ := hopen
  rw [readValue, skipBlanks_cons rfl]
  simp only [skipBlanks_cons hblank]
  split
  · simp_all
  · rw [hread]

theorem readValue_object {members : List (Option String × Json)}
    (hread : readMembers fuel ('"' :: cs) = (members, rest)) :
    readValue (fuel + 1) ('{' :: '"' :: cs) = (.object members, rest) := by
  rw [readValue, skipBlanks_cons rfl]
  simp only [skipBlanks_cons (c := '"') rfl]
  split <;> simp_all

theorem readItems_last {item : Json} (hread : readValue fuel cs = (item, ']' :: rest)) :
    readItems (fuel + 1) cs = ([item], rest) := by
  rw [readItems, hread]
  rfl

theorem readItems_cons {item : Json} {items : List Json}
    (hread : readValue fuel cs = (item, ',' :: cs')) (hitems : readItems fuel cs' = (items, rest)) :
    readItems (fuel + 1) cs = (item :: items, rest) := by
  rw [readItems, hread]
  simp only [skipBlanks_cons (c := ',') rfl, hitems]

theorem readMembers_last {key : String} {value : Json}
    (hread : readValue fuel cs = (value, '}' :: rest)) :
    readMembers (fuel + 1) (quote key ++ ':' :: cs) = ([(some key, value)], rest) := by
  rw [quote, List.append_assoc, List.cons_append, readMembers, skipBlanks_cons rfl]
  simp only [List.singleton_append, readText_flatMap_escape, skipBlanks_cons (c := ':') rfl, hread,
    skipBlanks_cons (c := '}') rfl]

theorem readMembers_cons {key : String} {value : Json} {members : List (Option String × Json)}
    (hread : readValue fuel cs = (value, ',' :: cs'))
    (hmembers : readMembers fuel cs' = (members, rest)) :
    readMembers (fuel + 1) (quote key ++ ':' :: cs) = ((some key, value) :: members, rest) := by
  rw [quote, List.append_assoc, List.cons_append, readMembers, skipBlanks_cons rfl]
  simp only [List.singleton_append, readText_flatMap_escape, skipBlanks_cons (c := ':') rfl, hread,
    skipBlanks_cons (c := ',') rfl, hmembers]

end Steps

/-! ### Whole values -/

mutual

/-- **Every value is read back,** and what closes it is left.  Two steps of the reader for each
character suffice. -/
theorem readValue_render : ∀ (v : Json), v.hasText = true → ∀ (fuel : Nat) (rest : List Char),
    Closes rest → 2 * (render v).length ≤ fuel → readValue fuel (render v ++ rest) = (v, rest)
  | .null, _, fuel + 1, rest, _, _ => by rfl
  | .bool true, _, fuel + 1, rest, _, _ => by rfl
  | .bool false, _, fuel + 1, rest, _, _ => by rfl
  | .natural n, _, fuel + 1, rest, hrest, _ => readValue_natural fuel n hrest
  | .string (some text), _, fuel + 1, rest, _, _ => by
      rw [render, quote, List.append_assoc, List.cons_append, readValue, skipBlanks_cons rfl]
      simp only [List.singleton_append, readText_flatMap_escape]
  | .array [], _, fuel + 1, rest, _, _ => by rfl
  | .array (v :: vs), h, fuel + 1, rest, hrest, hfuel => by
      rw [hasText] at h
      rw [render, List.length_append, List.length_cons, List.length_singleton] at hfuel
      rw [render, List.append_assoc, List.cons_append, List.singleton_append]
      refine readValue_array (readItems_render v vs h fuel rest (by omega)) ?_
      obtain ⟨c, cs, hcs, hblank, hclose⟩ := exists_renderItems_eq_cons h
      exact ⟨c, _, by rw [hcs, List.cons_append], hblank, hclose⟩
  | .object [], _, fuel + 1, rest, _, _ => by rfl
  | .object (m :: ms), h, fuel + 1, rest, hrest, hfuel => by
      rw [hasText] at h
      rw [render, List.length_append, List.length_cons, List.length_singleton] at hfuel
      rw [render, List.append_assoc, List.cons_append, List.singleton_append]
      have hmembers := readMembers_render m ms h fuel rest (by omega)
      obtain ⟨cs, hcs⟩ := exists_renderMembers_eq_cons m ms
      rw [hcs, List.cons_append] at hmembers ⊢
      exact readValue_object hmembers
  | v, h, 0, rest, _, hfuel => by
      obtain ⟨c, cs, hcs, -, -⟩ := exists_render_eq_cons h
      rw [hcs, List.length_cons] at hfuel
      omega

/-- So are items. -/
theorem readItems_render : ∀ (v : Json) (vs : List Json), hasTextItems (v :: vs) = true →
    ∀ (fuel : Nat) (rest : List Char), 2 * (renderItems (v :: vs)).length + 1 ≤ fuel →
      readItems fuel (renderItems (v :: vs) ++ ']' :: rest) = (v :: vs, rest)
  | v, [], h, fuel + 1, rest, hfuel => by
      rw [hasTextItems, Bool.and_eq_true] at h
      rw [renderItems] at hfuel ⊢
      exact readItems_last (readValue_render v h.1 fuel _ (closes_cons (by simp) rest) (by omega))
  | v, v' :: vs, h, fuel + 1, rest, hfuel => by
      rw [hasTextItems, Bool.and_eq_true] at h
      rw [renderItems_cons_cons, List.length_append, List.length_cons] at hfuel
      rw [renderItems_cons_cons, List.append_assoc, List.cons_append]
      exact readItems_cons (readValue_render v h.1 fuel _ (closes_cons (by simp) _) (by omega))
        (readItems_render v' vs h.2 fuel rest (by omega))

/-- So are members. -/
theorem readMembers_render : ∀ (m : Option String × Json) (ms : List (Option String × Json)),
    hasTextMembers (m :: ms) = true → ∀ (fuel : Nat) (rest : List Char),
      2 * (renderMembers (m :: ms)).length + 1 ≤ fuel →
      readMembers fuel (renderMembers (m :: ms) ++ '}' :: rest) = (m :: ms, rest)
  | (some key, v), [], h, fuel + 1, rest, hfuel => by
      simp only [hasTextMembers, Bool.and_eq_true] at h
      rw [renderMembers, List.length_append, List.length_cons] at hfuel
      rw [renderMembers, List.append_assoc, List.cons_append]
      exact readMembers_last
        (readValue_render v h.1.2 fuel _ (closes_cons (by simp) rest) (by omega))
  | (some key, v), m :: ms, h, fuel + 1, rest, hfuel => by
      rw [hasTextMembers, Bool.and_eq_true, Bool.and_eq_true] at h
      rw [renderMembers_cons_cons, List.length_append, List.length_append, List.length_cons,
        List.length_cons] at hfuel
      rw [renderMembers_cons_cons, List.append_assoc, List.append_assoc, List.cons_append,
        List.cons_append]
      exact readMembers_cons
        (readValue_render v h.1.2 fuel _ (closes_cons (by simp) _) (by omega))
        (readMembers_render m ms h.2 fuel rest (by omega))

end

/-- **A text that was written is read as what it was written for,** to its end. -/
theorem read_render {v : Json} (h : v.hasText = true) : read (render v) = (v, []) := by
  have hread := readValue_render v h (2 * (render v).length + 1) [] closes_nil (Nat.le_succ _)
  rwa [List.append_nil] at hread

end MarketDepth.Json
