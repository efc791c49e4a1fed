/-
**Messages as JSON texts.**

A message is written as one object: its kind under `type`, then its fields in the order in which
they are declared.  Levels are pairs `[price, size]`, written as given: nothing is sorted, merged
or dropped.

Main definitions:

* `MarketDepth.Update.toJson`, `MarketDepth.Trade.toJson`, `MarketDepth.Message.toJson` — the
  objects;
* `MarketDepth.Message.encode` and its companions — **their texts**.
-/

import MarketDepth.Message
import MarketDepth.Json.Writer

set_option relaxedAutoImplicit false
set_option autoImplicit false

namespace MarketDepth

/-! ### Fields -/

/-- A list of levels as an array of pairs. -/
def Level.listToJson (levels : List Level) : Json :=
  .array (levels.map fun l => .array [.natural l.price, .natural l.size])

/-- The fields of an update. -/
def Update.members (u : Update) : List (Option String × Json) :=
  [(some "instrument", .string (some u.instrument)),
   (some "update_id", .natural u.updateId),
   (some "timestamp", .natural u.timestamp),
   (some "bids", Level.listToJson u.bids),
   (some "asks", Level.listToJson u.asks)]

/-- The fields of a trade. -/
def Trade.members (t : Trade) : List (Option String × Json) :=
  [(some "instrument", .string (some t.instrument)),
   (some "timestamp", .natural t.timestamp),
   (some "price", .natural t.price),
   (some "size", .natural t.size),
   (some "side", .string (some t.side.name))]

/-- The fields of what a message carries. -/
def Message.members : Message → List (Option String × Json)
  | .diff u | .snapshot u => u.members
  | .trade t => t.members

/-! ### Objects -/

/-- An update on its own. -/
def Update.toJson (u : Update) : Json :=
  .object u.members

/-- A trade on its own. -/
def Trade.toJson (t : Trade) : Json :=
  .object t.members

/-- A message, tagged with its kind. -/
def Message.toJson (m : Message) : Json :=
  .object ((some "type", .string (some m.kind.name)) :: m.members)

/-! ### Texts -/

/-- The text of an update. -/
def Update.encode (u : Update) : String :=
  String.ofList u.toJson.render

/-- The text of a trade. -/
def Trade.encode (t : Trade) : String :=
  String.ofList t.toJson.render

/-- **The text of a message.** -/
def Message.encode (m : Message) : String :=
  String.ofList m.toJson.render

/-- The text of a kind. -/
def Kind.encode (k : Kind) : String :=
  String.ofList (Json.render (.string (some k.name)))

/-- The text of a side. -/
def Aggressor.encode (side : Aggressor) : String :=
  String.ofList (Json.render (.string (some side.name)))

end MarketDepth
