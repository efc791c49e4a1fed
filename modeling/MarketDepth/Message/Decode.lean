/-
**Messages from JSON texts.**

An object gives its fields by name, in any order and among unknown ones; an array gives them by
position.  Two rules decide which problem of a text is reported.  Updates and trades are read in
one pass: each member is judged as it is met, and only then is it asked what is missing.  Messages
are read twice, because the kind may come last: the first pass finds the kind and demands that
everything else can be kept, the second pass reads the fields.

Main definitions:

* `MarketDepth.DecodeFault` — why a text is refused, with the wording where there is one;
* `MarketDepth.Update.ofJson`, `MarketDepth.Trade.ofJson` — one pass;
* `MarketDepth.Message.ofJson` — **two passes**;
* `MarketDepth.Message.decode` and its companions — from a text, with nothing behind the value.
-/

import MarketDepth.Message
import MarketDepth.Json.Reader

set_option relaxedAutoImplicit false
set_option autoImplicit false

namespace MarketDepth

/-! ### Reasons for refusal -/

/-- Why a text is refused. -/
inductive DecodeFault where
  /-- A field that must be there is not. -/
  | missing (field : String)
  /-- A known field is there twice. -/
  | duplicate (field : String)
  /-- No kind of message has this name. -/
  | unknownKind (name : String)
  /-- No side has this name. -/
  | unknownSide (name : String)
  /-- The text is not JSON, or a value is not of the type of its field. -/
  | malformed
  deriving DecidableEq, Inhabited

/-- The wording of a refusal; a malformed text has none. -/
def DecodeFault.message? : DecodeFault → Option String
  | missing field => some ("missing field `" ++ field ++ "`")
  | duplicate field => some ("duplicate field `" ++ field ++ "`")
  | unknownKind name =>
      some ("unknown variant `" ++ name ++ "`, expected one of `diff`, `snapshot`, `trade`")
  | unknownSide name => some ("unknown variant `" ++ name ++ "`, expected `buy` or `sell`")
  | malformed => none

/-! ### Single values -/

/-- A value that must be there in the right type. -/
def wellTyped {α : Type} : Option α → Except DecodeFault α
  | some a => .ok a
  | none => .error .malformed

/-- A pair `[price, size]`. -/
def Level.ofJson? : Json → Option Level
  | .array [.natural price, .natural size] => some { price, size }
  | _ => none

/-- An array of pairs. -/
def Level.listOfJson? : Json → Option (List Level)
  | .array items => items.mapM Level.ofJson?
  | _ => none

/-- A name from a fixed list: a string, or an object whose only key is the name and whose value is
null.  The name is judged before what follows it. -/
def nameOf {α : Type} (find : String → Option α) (unknown : String → DecodeFault) :
    Json → Except DecodeFault α
  | .string (some name) =>
      match find name with
      | some a => .ok a
      | none => .error (unknown name)
  | .object ((some name, value) :: rest) =>
      match find name with
      | some a =>
          match value, rest with
          | .null, [] => .ok a
          | _, _ => .error .malformed
      | none => .error (unknown name)
  | _ => .error .malformed

/-- A kind on its own. -/
def Kind.ofJson : Json → Except DecodeFault Kind :=
  nameOf Kind.ofName? .unknownKind

/-- A side on its own, or in a trade that is read in one pass. -/
def Aggressor.ofJson : Json → Except DecodeFault Aggressor :=
  nameOf Aggressor.ofName? .unknownSide

/-- A side in a message, which is read from a kept value.  An object must have one member before
its key is looked at, and an empty object counts as null there. -/
def Aggressor.ofStored : Json → Except DecodeFault Aggressor
  | .object [(some name, .object [])] => Aggressor.ofJson (.object [(some name, .null)])
  | .object [member] => Aggressor.ofJson (.object [member])
  | .object _ => .error .malformed
  | v => Aggressor.ofJson v

/-! ### Fields by name -/

/-- Notes the value of a field that has not been met before. -/
def note {α : Type} (field : String) (found : Option α) (value : Except DecodeFault α) :
    Except DecodeFault (Option α) :=
  match found with
  | some _ => .error (.duplicate field)
  | none => value.map some

/-- The value of a field that must have been met. -/
def required {α : Type} (field : String) : Option α → Except DecodeFault α
  | some a => .ok a
  | none => .error (.missing field)

/-- The fields of an update met so far. -/
structure UpdateFields where
  instrument : Option String := none
  updateId : Option UInt64 := none
  timestamp : Option UInt64 := none
  bids : Option (List Level) := none
  asks : Option (List Level) := none
  deriving DecidableEq, Inhabited

namespace UpdateFields

/-- Takes in one member of an object.  Unknown members only have to be whole. -/
def absorb (found : UpdateFields) : Option String × Json → Except DecodeFault UpdateFields
  | (none, _) => .error .malformed
  | (some key, v) =>
      if key = "instrument" then
        (note key found.instrument (wellTyped v.text?)).map
          fun value => { found with instrument := value }
      else if key = "update_id" then
        (note key found.updateId (wellTyped v.natural?)).map
          fun value => { found with updateId := value }
      else if key = "timestamp" then
        (note key found.timestamp (wellTyped v.natural?)).map
          fun value => { found with timestamp := value }
      else if key = "bids" then
        (note key found.bids (wellTyped (Level.listOfJson? v))).map
          fun value => { found with bids := value }
      else if key = "asks" then
        (note key found.asks (wellTyped (Level.listOfJson? v))).map
          fun value => { found with asks := value }
      else if v.whole then .ok found
      else .error .malformed

/-- The update, once all members have been met.  Lists of levels may be missing. -/
def finish (found : UpdateFields) : Except DecodeFault Update := do
  let instrument ← required "instrument" found.instrument
  let updateId ← required "update_id" found.updateId
  let timestamp ← required "timestamp" found.timestamp
  pure { instrument, updateId, timestamp, bids := found.bids.getD [], asks := found.asks.getD [] }

end UpdateFields

/-- The fields of a trade met so far. -/
structure TradeFields where
  instrument : Option String := none
  timestamp : Option UInt64 := none
  price : Option UInt64 := none
  size : Option UInt64 := none
  side : Option Aggressor := none
  deriving DecidableEq, Inhabited

namespace TradeFields

/-- Takes in one member of an object.  Unknown members only have to be whole. -/
def absorb (readSide : Json → Except DecodeFault Aggressor) (found : TradeFields) :
    Option String × Json → Except DecodeFault TradeFields
  | (none, _) => .error .malformed
  | (some key, v) =>
      if key = "instrument" then
        (note key found.instrument (wellTyped v.text?)).map
          fun value => { found with instrument := value }
      else if key = "timestamp" then
        (note key found.timestamp (wellTyped v.natural?)).map
          fun value => { found with timestamp := value }
      else if key = "price" then
        (note key found.price (wellTyped v.natural?)).map
          fun value => { found with price := value }
      else if key = "size" then
        (note key found.size (wellTyped v.natural?)).map
          fun value => { found with size := value }
      else if key = "side" then
        (note key found.side (readSide v)).map
          fun value => { found with side := value }
      else if v.whole then .ok found
      else .error .malformed

/-- The trade, once all members have been met. -/
def finish (found : TradeFields) : Except DecodeFault Trade := do
  let instrument ← required "instrument" found.instrument
  let timestamp ← required "timestamp" found.timestamp
  let price ← required "price" found.price
  let size ← required "size" found.size
  let side ← required "side" found.side
  pure { instrument, timestamp, price, size, side }

end TradeFields

/-! ### Fields by position -/

/-- An update from its fields in order; the lists of levels may be left out from the end. -/
def Update.ofItems : List Json → Except DecodeFault Update
  | instrument :: updateId :: timestamp :: levels => do
      let instrument ← wellTyped instrument.text?
      let updateId ← wellTyped updateId.natural?
      let timestamp ← wellTyped timestamp.natural?
      let (bids, asks) ← match levels with
        | [] => .ok ([], [])
        | [bids] => do pure (← wellTyped (Level.listOfJson? bids), [])
        | [bids, asks] => do
            pure (← wellTyped (Level.listOfJson? bids), ← wellTyped (Level.listOfJson? asks))
        | _ => .error .malformed
      pure { instrument, updateId, timestamp, bids, asks }
  | _ => .error .malformed

/-- A trade from its five fields in order. -/
def Trade.ofItems (readSide : Json → Except DecodeFault Aggressor) :
    List Json → Except DecodeFault Trade
  | instrument :: timestamp :: price :: size :: side :: rest => do
      let instrument ← wellTyped instrument.text?
      let timestamp ← wellTyped timestamp.natural?
      let price ← wellTyped price.natural?
      let size ← wellTyped size.natural?
      let side ← readSide side
      match rest with
      | [] => pure { instrument, timestamp, price, size, side }
      | _ => .error .malformed
  | _ => .error .malformed

/-! ### One pass -/

/-- An update from an object or an array. -/
def Update.ofJson : Json → Except DecodeFault Update
  | .object members => do (← members.foldlM UpdateFields.absorb {}).finish
  | .array items => Update.ofItems items
  | _ => .error .malformed

/-- A trade from an object or an array; `readSide` reads its side. -/
def Trade.ofJsonWith (readSide : Json → Except DecodeFault Aggressor) :
    Json → Except DecodeFault Trade
  | .object members => do (← members.foldlM (TradeFields.absorb readSide) {}).finish
  | .array items => Trade.ofItems readSide items
  | _ => .error .malformed

/-- A trade on its own. -/
def Trade.ofJson : Json → Except DecodeFault Trade :=
  Trade.ofJsonWith Aggressor.ofJson

/-! ### Two passes -/

namespace Message

/-- How deep a value inside a message may be nested: 127 levels, the message itself included. -/
def maxNesting : Nat := 126

/-- The kind that a tag names; only a string will do. -/
def kindOfTag : Json → Except DecodeFault Kind
  | .string (some name) =>
      match Kind.ofName? name with
      | some kind => .ok kind
      | none => .error (.unknownKind name)
  | _ => .error .malformed

/-- The first pass over an object: the kind under `type`, met at most once, while every other
member can be kept. -/
def scanTag (found : Option Kind) : Option String × Json → Except DecodeFault (Option Kind)
  | (none, _) => .error .malformed
  | (some key, v) =>
      if key = "type" then note key found (kindOfTag v)
      else if v.storable maxNesting then .ok found
      else .error .malformed

/-- The second pass: what a message of the given kind carries. -/
def payload (kind : Kind) (fields : Json) : Except DecodeFault Message :=
  match kind with
  | .diff => (Update.ofJson fields).map .diff
  | .snapshot => (Update.ofJson fields).map .snapshot
  | .trade => (Trade.ofJsonWith Aggressor.ofStored fields).map .trade

/-- **A message from an object or an array.**  In an object the tag is one member among others,
and to the second pass an unknown one; in an array it comes first. -/
def ofJson : Json → Except DecodeFault Message
  | .object members => do
      let kind ← required "type" (← members.foldlM scanTag none)
      payload kind (.object members)
  | .array [] => .error (.missing "type")
  | .array (tag :: items) => do
      let kind ← kindOfTag tag
      if items.all (·.storable maxNesting) then payload kind (.array items)
      else .error .malformed
  | _ => .error .malformed

end Message

/-! ### Texts -/

/-- Reads the value of a text.  What stands behind the value is judged last. -/
def decodeWith {α : Type} (ofJson : Json → Except DecodeFault α) (text : String) :
    Except DecodeFault α := do
  let (v, rest) := Json.read text.toList
  let a ← ofJson v
  if (Json.skipBlanks rest).isEmpty then pure a else .error .malformed

/-- **The message that a text spells.** -/
def Message.decode : String → Except DecodeFault Message :=
  decodeWith Message.ofJson

/-- The update that a text spells. -/
def Update.decode : String → Except DecodeFault Update :=
  decodeWith Update.ofJson

/-- The trade that a text spells. -/
def Trade.decode : String → Except DecodeFault Trade :=
  decodeWith Trade.ofJson

/-- The kind that a text spells. -/
def Kind.decode : String → Except DecodeFault Kind :=
  decodeWith Kind.ofJson

/-- The side that a text spells. -/
def Aggressor.decode : String → Except DecodeFault Aggressor :=
  decodeWith Aggressor.ofJson

end MarketDepth
