/-
**JSON texts as values.**

A text is read into a tree, whatever the text is: where it stops being JSON, the tree says so and
ends.  Readers of typed data then work on trees alone, and because a broken tree still shows what
came before the break, they can report the first problem of a text in the order of the text.

Numbers are kept only as far as anyone asks about them: a whole number that fits a 64-bit word, or
any other number together with whether a double can hold it.

Main definitions:

* `MarketDepth.Json` — **a JSON value as read**, with the mark `Json.broken`;
* `MarketDepth.Json.whole` — the text was JSON throughout;
* `MarketDepth.Json.storable` — it can be kept for a second reading: it is whole, its strings are
  proper, its numbers are finite and it is not nested too deeply.

Main results:

* `MarketDepth.Json.whole_of_storable` — what is storable is whole.
-/

set_option relaxedAutoImplicit false
set_option autoImplicit false

namespace MarketDepth

/-- **A JSON value as read from a text.** -/
inductive Json where
  | null
  | bool (value : Bool)
  /-- A number written as a whole number from 0 to `2 ^ 64 - 1`. -/
  | natural (value : UInt64)
  /-- Any other number; `finite` tells whether a double can hold it. -/
  | number (finite : Bool)
  /-- A string.  One that names half of a surrogate pair has no text. -/
  | string (text : Option String)
  | array (items : List Json)
  /-- The members in the order of the text, repeated keys included. -/
  | object (members : List (Option String × Json))
  /-- The text stops being JSON here. -/
  | broken
  deriving Inhabited

namespace Json

/-! ### Trees without a break -/

mutual

/-- The value was read to its end. -/
def whole : Json → Bool
  | .array items => wholeItems items
  | .object members => wholeMembers members
  | .broken => false
  | .null | .bool _ | .natural _ | .number _ | .string _ => true

/-- Every item was read to its end. -/
def wholeItems : List Json → Bool
  | [] => true
  | v :: vs => whole v && wholeItems vs

/-- Every member was read to its end. -/
def wholeMembers : List (Option String × Json) → Bool
  | [] => true
  | (_, v) :: ms => whole v && wholeMembers ms

end

/-! ### Trees that can be kept -/

mutual

/-- The value can be kept for a second reading: it is whole, every string and key in it has a
text, every number is finite, and arrays and objects are nested at most `depth` deep. -/
def storable : Json → (depth : Nat) → Bool
  | .array items, depth =>
      match depth with
      | 0 => false
      | depth + 1 => storableItems items depth
  | .object members, depth =>
      match depth with
      | 0 => false
      | depth + 1 => storableMembers members depth
  | .number finite, _ => finite
  | .string text, _ => text.isSome
  | .broken, _ => false
  | .null, _ => true
  | .bool _, _ => true
  | .natural _, _ => true

/-- Every item can be kept. -/
def storableItems : List Json → (depth : Nat) → Bool
  | [], _ => true
  | v :: vs, depth => storable v depth && storableItems vs depth

/-- Every member can be kept. -/
def storableMembers : List (Option String × Json) → (depth : Nat) → Bool
  | [], _ => true
  | (k, v) :: ms, depth => k.isSome && storable v depth && storableMembers ms depth

end

mutual

/-- **What can be kept was read to its end.** -/
theorem whole_of_storable : ∀ (v : Json) (depth : Nat), storable v depth = true → whole v = true
  | .array _, 0, h => by simp [storable] at h
  | .array items, depth + 1, h => by
      simp only [storable] at h
      simpa only [whole] using wholeItems_of_storableItems items depth h
  | .object _, 0, h => by simp [storable] at h
  | .object members, depth + 1, h => by
      simp only [storable] at h
      simpa only [whole] using wholeMembers_of_storableMembers members depth h
  | .broken, _, h => by simp [storable] at h
  | .number _, _, _ => rfl
  | .string _, _, _ => rfl
  | .null, _, _ => rfl
  | .bool _, _, _ => rfl
  | .natural _, _, _ => rfl

theorem wholeItems_of_storableItems :
    ∀ (vs : List Json) (depth : Nat), storableItems vs depth = true → wholeItems vs = true
  | [], _, _ => rfl
  | v :: vs, depth, h => by
      simp only [storableItems, Bool.and_eq_true] at h
      simp [wholeItems, whole_of_storable v depth h.1, wholeItems_of_storableItems vs depth h.2]

theorem wholeMembers_of_storableMembers :
    ∀ (ms : List (Option String × Json)) (depth : Nat),
      storableMembers ms depth = true → wholeMembers ms = true
  | [], _, _ => rfl
  | (k, v) :: ms, depth, h => by
      simp only [storableMembers, Bool.and_eq_true] at h
      simp [wholeMembers, whole_of_storable v depth h.1.2,
        wholeMembers_of_storableMembers ms depth h.2]

end

/-! ### Typed views -/

/-- The text of a string value. -/
def text? : Json → Option String
  | .string text => text
  | _ => none

/-- The value of a whole number that fits a word. -/
def natural? : Json → Option UInt64
  | .natural n => some n
  | _ => none

theorem text?_eq_some_iff {v : Json} {s : String} : v.text? = some s ↔ v = .string (some s) := by
  cases v <;> simp [text?]

theorem natural?_eq_some_iff {v : Json} {n : UInt64} : v.natural? = some n ↔ v = .natural n := by
  cases v <;> simp [natural?]

end Json

end MarketDepth
