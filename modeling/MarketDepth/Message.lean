/-
**Messages of a market data feed.**

A feed carries three kinds of message.  A *diff* changes some price levels of one instrument's
book, a *snapshot* states a whole book, and a *trade* reports an execution.  Prices are integer
ticks and sizes integer lots; both, like ids and times, are 64-bit words.

Main definitions:

* `MarketDepth.Level`, `MarketDepth.Update`, `MarketDepth.Trade` — what messages are made of;
* `MarketDepth.Message` — **a message**, with `Message.kind`, `Message.instrument`,
  `Message.timestamp` and `Message.updateId?`;
* `MarketDepth.Kind` — the three kinds, with `Kind.name` and its inverse `Kind.ofName?`.

Main results:

* `MarketDepth.Kind.ofName?_eq_some_iff`, `MarketDepth.Aggressor.ofName?_eq_some_iff` — a name
  belongs to at most one kind, and each kind is read back from its name.
-/

set_option relaxedAutoImplicit false
set_option autoImplicit false

namespace MarketDepth

/-! ### Levels and updates -/

/-- One price level: `size` lots are offered at `price` ticks.  A level of size 0 does not exist;
in an update it asks for the level to be removed. -/
structure Level where
  price : UInt64
  size : UInt64
  deriving DecidableEq, Inhabited

/-- What diffs and snapshots carry: levels of both sides under an id that the exchange counts up.
Sizes are absolute, so a level replaces whatever the book holds at its price. -/
structure Update where
  instrument : String
  updateId : UInt64
  timestamp : UInt64
  bids : List Level := []
  asks : List Level := []
  deriving DecidableEq, Inhabited

/-! ### Trades -/

/-- The side that crossed the spread in a trade. -/
inductive Aggressor where
  | buy
  | sell
  deriving DecidableEq, Inhabited

namespace Aggressor

/-- The word for a side in the feed's texts. -/
def name : Aggressor → String
  | buy => "buy"
  | sell => "sell"

/-- The side with the given name. -/
def ofName? (text : String) : Option Aggressor :=
  if text = "buy" then some buy else if text = "sell" then some sell else none

theorem ofName?_eq_some_iff {text : String} {side : Aggressor} :
    ofName? text = some side ↔ text = side.name := by
  cases side with
  | buy => simp [ofName?, name]
  | sell => simp only [ofName?, name]; grind

@[simp] theorem ofName?_name (side : Aggressor) : ofName? side.name = some side :=
  ofName?_eq_some_iff.2 rfl

end Aggressor

/-- An execution: `size` lots changed hands at `price`, on the initiative of `side`. -/
structure Execution where
  timestamp : UInt64
  price : UInt64
  size : UInt64
  side : Aggressor
  deriving DecidableEq, Inhabited

/-- An execution in a named instrument. -/
structure Trade where
  instrument : String
  timestamp : UInt64
  price : UInt64
  size : UInt64
  side : Aggressor
  deriving DecidableEq, Inhabited

/-- The execution that a trade reports, without its instrument. -/
def Trade.execution (trade : Trade) : Execution :=
  { timestamp := trade.timestamp, price := trade.price, size := trade.size, side := trade.side }

/-! ### Kinds of message -/

/-- The three kinds of message. -/
inductive Kind where
  | diff
  | snapshot
  | trade
  deriving DecidableEq, Inhabited

namespace Kind

/-- The word for a kind in the feed's texts and in reports. -/
def name : Kind → String
  | diff => "diff"
  | snapshot => "snapshot"
  | trade => "trade"

/-- The kind with the given name. -/
def ofName? (text : String) : Option Kind :=
  if text = "diff" then some diff
  else if text = "snapshot" then some snapshot
  else if text = "trade" then some trade
  else none

theorem ofName?_eq_some_iff {text : String} {kind : Kind} :
    ofName? text = some kind ↔ text = kind.name := by
  cases kind <;> simp [ofName?, name] <;> grind

@[simp] theorem ofName?_name (kind : Kind) : ofName? kind.name = some kind :=
  ofName?_eq_some_iff.2 rfl

end Kind

/-! ### Messages -/

/-- **A message of the feed.** -/
inductive Message where
  | diff (update : Update)
  | snapshot (update : Update)
  | trade (trade : Trade)
  deriving DecidableEq, Inhabited

namespace Message

/-- The kind of a message. -/
def kind : Message → Kind
  | diff _ => .diff
  | snapshot _ => .snapshot
  | trade _ => .trade

/-- The instrument that a message is about. -/
def instrument : Message → String
  | diff u | snapshot u => u.instrument
  | trade t => t.instrument

/-- When the message was made. -/
def timestamp : Message → UInt64
  | diff u | snapshot u => u.timestamp
  | trade t => t.timestamp

/-- The id of a diff or snapshot; trades are not numbered. -/
def updateId? : Message → Option UInt64
  | diff u | snapshot u => some u.updateId
  | trade _ => none

@[simp] theorem kind_diff (u : Update) : (diff u).kind = .diff := rfl
@[simp] theorem kind_snapshot (u : Update) : (snapshot u).kind = .snapshot := rfl
@[simp] theorem kind_trade (t : Trade) : (trade t).kind = .trade := rfl
@[simp] theorem instrument_diff (u : Update) : (diff u).instrument = u.instrument := rfl
@[simp] theorem instrument_snapshot (u : Update) : (snapshot u).instrument = u.instrument := rfl
@[simp] theorem instrument_trade (t : Trade) : (trade t).instrument = t.instrument := rfl
@[simp] theorem updateId?_diff (u : Update) : (diff u).updateId? = some u.updateId := rfl
@[simp] theorem updateId?_snapshot (u : Update) : (snapshot u).updateId? = some u.updateId := rfl
@[simp] theorem updateId?_trade (t : Trade) : (trade t).updateId? = none := rfl

/-- Trades are exactly the messages without an id. -/
theorem updateId?_eq_none_iff {m : Message} : m.updateId? = none ↔ m.kind = .trade := by
  cases m <;> simp

end Message

end MarketDepth
