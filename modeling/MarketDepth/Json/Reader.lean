/-
**Reading JSON texts.**

Reading never fails.  It returns a tree and the text behind it; a text that is not JSON gives a
tree with a `Json.broken` in it, behind which nothing is read.  The grammar is the strict one: no
leading zeros, no trailing commas, no raw control characters in strings, and blanks are the space,
the tab, the line feed and the carriage return.

Main definitions:

* `MarketDepth.Json.Piece`, `MarketDepth.Json.joinPieces` — the parts of a string literal, and the
  characters that they spell, if they do;
* `MarketDepth.Json.finiteDecimal` — a decimal number is read as a finite double;
* `MarketDepth.Json.readValue` — **the reader**, run by `MarketDepth.Json.read` with enough fuel
  for the text.

Main results:

* `MarketDepth.Json.roundToDouble_of_lt` — whole numbers below `2 ^ 53` are doubles themselves.
-/

import MarketDepth.Json

set_option relaxedAutoImplicit false
set_option autoImplicit false

namespace MarketDepth.Json

/-! ### Blanks -/

/-- The characters that may stand between tokens. -/
def isBlank (c : Char) : Bool :=
  c == ' ' || c == '\t' || c == '\n' || c == '\r'

/-- The text behind its leading blanks. -/
def skipBlanks (cs : List Char) : List Char :=
  cs.dropWhile isBlank

/-! ### Strings -/

/-- A part of a string literal: a character, or a 16-bit unit written as four hex digits. -/
inductive Piece where
  | char (c : Char)
  | unit (code : Nat)
  deriving DecidableEq, Inhabited

/-- The character that a one-letter escape stands for. -/
def escape? : Char → Option Char
  | '"' => some '"'
  | '\\' => some '\\'
  | '/' => some '/'
  | 'b' => some '\x08'
  | 'f' => some '\x0c'
  | 'n' => some '\n'
  | 'r' => some '\r'
  | 't' => some '\t'
  | _ => none

/-- The value of a hex digit of either case. -/
def hexDigit? (c : Char) : Option Nat :=
  if '0' ≤ c ∧ c ≤ '9' then some (c.toNat - '0'.toNat)
  else if 'a' ≤ c ∧ c ≤ 'f' then some (c.toNat - 'a'.toNat + 10)
  else if 'A' ≤ c ∧ c ≤ 'F' then some (c.toNat - 'A'.toNat + 10)
  else none

/-- The unit that four hex digits spell. -/
def unit? (a b c d : Char) : Option Nat := do
  let a ← hexDigit? a
  let b ← hexDigit? b
  let c ← hexDigit? c
  let d ← hexDigit? d
  pure (((a * 16 + b) * 16 + c) * 16 + d)

/-- The pieces up to the closing quote, and the text behind it. -/
def readPieces : List Char → Option (List Piece × List Char)
  | [] => none
  | '"' :: rest => some ([], rest)
  | '\\' :: 'u' :: a :: b :: c :: d :: rest =>
      match unit? a b c d with
      | none => none
      | some code => (readPieces rest).map fun (pieces, rest) => (.unit code :: pieces, rest)
  | '\\' :: c :: rest =>
      match escape? c with
      | none => none
      | some e => (readPieces rest).map fun (pieces, rest) => (.char e :: pieces, rest)
  | c :: rest =>
      if c.toNat < 0x20 then none
      else (readPieces rest).map fun (pieces, rest) => (.char c :: pieces, rest)

/-- The unit opens a surrogate pair. -/
def isHighSurrogate (code : Nat) : Bool :=
  0xD800 ≤ code && code < 0xDC00

/-- The unit closes a surrogate pair. -/
def isLowSurrogate (code : Nat) : Bool :=
  0xDC00 ≤ code && code < 0xE000

/-- The character that a surrogate pair encodes. -/
def ofSurrogates (high low : Nat) : Char :=
  Char.ofNat (0x10000 + (high - 0xD800) * 0x400 + (low - 0xDC00))

/-- The characters that pieces spell; half of a surrogate pair spells none. -/
def joinPieces : List Piece → Option (List Char)
  | [] => some []
  | .char c :: rest => (joinPieces rest).map (c :: ·)
  | .unit a :: .unit b :: rest =>
      if isHighSurrogate a && isLowSurrogate b then
        (joinPieces rest).map (ofSurrogates a b :: ·)
      else if isHighSurrogate a || isLowSurrogate a then none
      else (joinPieces (.unit b :: rest)).map (Char.ofNat a :: ·)
  | .unit a :: rest =>
      if isHighSurrogate a || isLowSurrogate a then none
      else (joinPieces rest).map (Char.ofNat a :: ·)

/-- The string whose opening quote has just been passed, and the text behind it. -/
def readText (cs : List Char) : Option (Option String × List Char) :=
  (readPieces cs).map fun (pieces, rest) => ((joinPieces pieces).map String.ofList, rest)

/-! ### Numbers -/

/-- The leading digits of a text, and the text behind them. -/
def spanDigits (cs : List Char) : List Char × List Char :=
  (cs.takeWhile Char.isDigit, cs.dropWhile Char.isDigit)

/-- The whole number that decimal digits spell. -/
def digitsValue (digits : List Char) : Nat :=
  Nat.ofDigitChars 10 digits 0

/-- The least magnitude that rounds to an infinite double: the midpoint between the largest finite
double `2 ^ 1024 - 2 ^ 971` and the next power of two. -/
def overflowBound : Nat :=
  Nat.pow 2 1024 - Nat.pow 2 970

/-- The multiple of `2 ^ shift` nearest to a whole number; of two, the even one. -/
def roundToMultiple (shift n : Nat) : Nat :=
  let unit := Nat.pow 2 shift
  let below := n / unit
  let twice := 2 * (n % unit)
  let up := unit < twice || (twice == unit && below % 2 == 1)
  (if up then below + 1 else below) * unit

/-- A whole number rounded to the 53 significant bits of a double. -/
def roundToDouble (n : Nat) : Nat :=
  roundToMultiple (n.log2 - 52) n

@[simp] theorem roundToMultiple_zero (n : Nat) : roundToMultiple 0 n = n := by
  simp [roundToMultiple, Nat.mod_one]

/-- **Whole numbers below `2 ^ 53` are doubles themselves.** -/
theorem roundToDouble_of_lt {n : Nat} (h : n < Nat.pow 2 53) : roundToDouble n = n := by
  have hlog : n.log2 - 52 = 0 := by
    by_cases hn : n = 0
    · simp [hn]
    · have hlt : n.log2 < 53 := (Nat.log2_lt hn).2 h
      omega
  rw [roundToDouble, hlog, roundToMultiple_zero]

/-- `significand * 10 ^ exponent` is read as a finite double.  The significand and the power of ten
are rounded before they are multiplied, and `10 ^ 308` is the last power that there is. -/
def fitsDouble (significand : Nat) (exponent : Int) : Bool :=
  if significand = 0 ∨ exponent < 0 then true
  else if 308 < exponent then false
  else roundToDouble significand * roundToDouble (Nat.pow 10 exponent.toNat) < overflowBound

/-- Appends decimal digits to a significand as long as it fits a 64-bit word, and counts the digits
that are left. -/
def appendDigits (significand : Nat) : List Char → Nat × Nat
  | [] => (significand, 0)
  | c :: cs =>
      let next := significand * 10 + (c.toNat - '0'.toNat)
      if next < UInt64.size then appendDigits next cs
      else (significand, cs.length + 1)

/-- The number with the given digits before and behind the point is read as a finite double.
Digits that no longer fit the significand are dropped: before the point they raise the exponent
instead, behind it they count for nothing. -/
def finiteDecimal (whole places : List Char) (exponent : Int) : Bool :=
  let (significand, dropped) := appendDigits 0 whole
  let (significand, ignored) := appendDigits significand places
  fitsDouble significand (exponent + dropped - (places.length - ignored : Nat))

/-- The digits of a whole part, without leading zeros. -/
def readWhole (cs : List Char) : Option (List Char × List Char) :=
  match spanDigits cs with
  | ([], _) => none
  | ('0' :: _ :: _, _) => none
  | found => some found

/-- The digits behind a decimal point, if there is one. -/
def readFraction (cs : List Char) : Option (Option (List Char) × List Char) :=
  match cs with
  | '.' :: cs =>
      match spanDigits cs with
      | ([], _) => none
      | (digits, rest) => some (some digits, rest)
  | cs => some (none, cs)

/-- The sign of an exponent (`true` for minus), and the text behind it. -/
def readSign (cs : List Char) : Bool × List Char :=
  match cs with
  | '-' :: cs => (true, cs)
  | '+' :: cs => (false, cs)
  | cs => (false, cs)

/-- The exponent, if there is one. -/
def readExponent (cs : List Char) : Option (Option Int × List Char) :=
  match cs with
  | c :: cs =>
      if c == 'e' || c == 'E' then
        let (negative, cs) := readSign cs
        match spanDigits cs with
        | ([], _) => none
        | (digits, rest) =>
            let size : Int := digitsValue digits
            some (some (if negative then -size else size), rest)
      else some (none, c :: cs)
  | [] => some (none, [])

/-- The value of a number literal from its parts. -/
def numberOf (negative : Bool) (whole : List Char) (fraction : Option (List Char))
    (exponent : Option Int) : Json :=
  match negative, fraction, exponent with
  | false, none, none =>
      let n := digitsValue whole
      if n < UInt64.size then .natural (UInt64.ofNat n) else .number (finiteDecimal whole [] 0)
  | _, _, _ => .number (finiteDecimal whole (fraction.getD []) (exponent.getD 0))

/-- The number at the head of a text. -/
def readNumber (cs : List Char) : Option (Json × List Char) := do
  let (negative, cs) := match cs with
    | '-' :: cs => (true, cs)
    | cs => (false, cs)
  let (whole, cs) ← readWhole cs
  let (fraction, cs) ← readFraction cs
  let (exponent, cs) ← readExponent cs
  pure (numberOf negative whole fraction exponent, cs)

/-! ### Values -/

mutual

/-- **The value at the head of a text,** and the text behind it.  Behind a break there is none. -/
def readValue : (fuel : Nat) → List Char → Json × List Char
  | 0, _ => (.broken, [])
  | fuel + 1, cs =>
      match skipBlanks cs with
      | 'n' :: 'u' :: 'l' :: 'l' :: rest => (.null, rest)
      | 't' :: 'r' :: 'u' :: 'e' :: rest => (.bool true, rest)
      | 'f' :: 'a' :: 'l' :: 's' :: 'e' :: rest => (.bool false, rest)
      | '"' :: rest =>
          match readText rest with
          | some (text, rest) => (.string text, rest)
          | none => (.broken, [])
      | '[' :: rest =>
          match skipBlanks rest with
          | ']' :: rest => (.array [], rest)
          | rest =>
              let (items, rest) := readItems fuel rest
              (.array items, rest)
      | '{' :: rest =>
          match skipBlanks rest with
          | '}' :: rest => (.object [], rest)
          | rest =>
              let (members, rest) := readMembers fuel rest
              (.object members, rest)
      | cs =>
          match readNumber cs with
          | some found => found
          | none => (.broken, [])

/-- The items of an array up to its closing bracket; at least one is expected. -/
def readItems : (fuel : Nat) → List Char → List Json × List Char
  | 0, _ => ([.broken], [])
  | fuel + 1, cs =>
      let (item, rest) := readValue fuel cs
      match skipBlanks rest with
      | ',' :: rest =>
          let (items, rest) := readItems fuel rest
          (item :: items, rest)
      | ']' :: rest => ([item], rest)
      | _ => ([item, .broken], [])

/-- The members of an object up to its closing brace; at least one is expected. -/
def readMembers : (fuel : Nat) → List Char → List (Option String × Json) × List Char
  | 0, _ => ([(none, .broken)], [])
  | fuel + 1, cs =>
      match skipBlanks cs with
      | '"' :: rest =>
          match readText rest with
          | none => ([(none, .broken)], [])
          | some (key, rest) =>
              match skipBlanks rest with
              | ':' :: rest =>
                  let (value, rest) := readValue fuel rest
                  match skipBlanks rest with
                  | ',' :: rest =>
                      let (members, rest) := readMembers fuel rest
                      ((key, value) :: members, rest)
                  | '}' :: rest => ([(key, value)], rest)
                  | _ => ([(key, value), (none, .broken)], [])
              | _ => ([(key, .broken)], [])
      | _ => ([(none, .broken)], [])

end

/-- The value at the head of a text, and the text behind it.  Each character costs the reader at
most two steps: one to enter an item, one to read it. -/
def read (cs : List Char) : Json × List Char :=
  readValue (2 * cs.length + 1) cs

end MarketDepth.Json
