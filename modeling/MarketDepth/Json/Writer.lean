/-
**Writing JSON texts.**

Texts are written without blanks.  In strings the quote, the backslash and the characters below
U+0020 are escaped, the latter by one letter where there is one and by four lower-case hex digits
otherwise; every other character stands as it is.

Main definitions:

* `MarketDepth.Json.escape`, `MarketDepth.Json.quote` — the literal of a string;
* `MarketDepth.Json.render` — **the text of a value**.
-/

import MarketDepth.Json

set_option relaxedAutoImplicit false
set_option autoImplicit false

namespace MarketDepth.Json

/-- The spelling of a character inside a string literal. -/
def escape (c : Char) : List Char :=
  if c = '"' then ['\\', '"']
  else if c = '\\' then ['\\', '\\']
  else if c = '\x08' then ['\\', 'b']
  else if c = '\x0c' then ['\\', 'f']
  else if c = '\n' then ['\\', 'n']
  else if c = '\r' then ['\\', 'r']
  else if c = '\t' then ['\\', 't']
  else if c.toNat < 0x20 then
    ['\\', 'u', '0', '0', Nat.digitChar (c.toNat / 16), Nat.digitChar (c.toNat % 16)]
  else [c]

/-- The literal of a string. -/
def quote (text : String) : List Char :=
  '"' :: text.toList.flatMap escape ++ ['"']

mutual

/-- **The text of a value.**  Marks that only reading leaves have none. -/
def render : Json → List Char
  | .null => ['n', 'u', 'l', 'l']
  | .bool true => ['t', 'r', 'u', 'e']
  | .bool false => ['f', 'a', 'l', 's', 'e']
  | .natural n => Nat.toDigits 10 n.toNat
  | .string (some text) => quote text
  | .array items => '[' :: renderItems items ++ [']']
  | .object members => '{' :: renderMembers members ++ ['}']
  | .number _ | .string none | .broken => []

/-- The texts of items, with commas between them. -/
def renderItems : List Json → List Char
  | [] => []
  | [v] => render v
  | v :: vs => render v ++ ',' :: renderItems vs

/-- The texts of members, with commas between them. -/
def renderMembers : List (Option String × Json) → List Char
  | [] => []
  | [(k, v)] => quote (k.getD "") ++ ':' :: render v
  | (k, v) :: ms => quote (k.getD "") ++ ':' :: render v ++ ',' :: renderMembers ms

end

end MarketDepth.Json
