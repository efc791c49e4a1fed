/-
**Order books.**

A book holds the bids and asks of one instrument as of some update id, and what trades have told
about it.  Diffs move it forward, a snapshot rebuilds it and then replays the diffs that are newer
than the snapshot, and trades touch nothing but the trade figures.

Main definitions:

* `MarketDepth.Book`, with `Book.empty` and `Book.ofSnapshot`;
* `MarketDepth.Book.applyDiff` — levels and id of a diff, with no question about its age;
* `MarketDepth.Book.restore` — **rebuilding from a snapshot with replay**;
* `MarketDepth.Book.applyTrade` — last trade, count and volume;
* `MarketDepth.Book.bestBid?`, `MarketDepth.Book.mid?`, `MarketDepth.Book.spread?` — readings;
* `MarketDepth.Book.depth` — both sides, copied out.
-/

import MarketDepth.Ladder

set_option relaxedAutoImplicit false
set_option autoImplicit false

namespace MarketDepth

/-- The largest 64-bit word. -/
def maxWord : UInt64 := 0xFFFFFFFFFFFFFFFF

/-- A sum that stays at the largest word once it would exceed it. -/
def addSaturating (a b : UInt64) : UInt64 :=
  if a ≤ maxWord - b then a + b else maxWord

/-- A difference that stays at 0 once it would be negative. -/
def subSaturating (a b : UInt64) : UInt64 :=
  if b ≤ a then a - b else 0

/-- The book of one instrument. -/
structure Book where
  instrument : String
  bids : Ladder .bid := .empty
  asks : Ladder .ask := .empty
  /-- The id of the update that the levels stand at. -/
  uid : UInt64 := 0
  lastTrade? : Option Execution := none
  /-- How many trades there were, which is taken to stay below `2 ^ 64`. -/
  tradeCount : Nat := 0
  /-- The sum of the sizes of all trades, held at the largest word. -/
  volume : UInt64 := 0
  deriving DecidableEq, Inhabited

/-- The levels of both sides, best first. -/
structure Depth where
  bids : List Level := []
  asks : List Level := []
  deriving DecidableEq, Inhabited

namespace Book

/-- A book without levels and trades. -/
def empty (instrument : String) : Book := { instrument }

/-! ### Updates -/

/-- Sets the levels of a diff and takes over its id. -/
def applyDiff (book : Book) (diff : Update) : Book :=
  { book with
    bids := book.bids.setAll diff.bids
    asks := book.asks.setAll diff.asks
    uid := diff.updateId }

/-- Drops all levels for those of a snapshot. -/
def replaceLevels (book : Book) (snapshot : Update) : Book :=
  { book with
    bids := .ofLevels snapshot.bids
    asks := .ofLevels snapshot.asks
    uid := snapshot.updateId }

/-- The diffs that a replay over a snapshot with id `uid` applies: those with a greater id, in
ascending order of ids, and those of one id in the given order. -/
def replayable (uid : UInt64) (diffs : List Update) : List Update :=
  (diffs.filter fun d => uid < d.updateId).mergeSort fun a b => a.updateId ≤ b.updateId

/-- **Rebuilds the book from a snapshot** and replays the newer ones of the given diffs over it.
The instrument and the trade figures stay. -/
def restore (book : Book) (snapshot : Update) (diffs : List Update) : Book :=
  (replayable snapshot.updateId diffs).foldl applyDiff (book.replaceLevels snapshot)

/-- The book that a snapshot describes. -/
def ofSnapshot (snapshot : Update) : Book :=
  (empty snapshot.instrument).replaceLevels snapshot

/-! ### Trades -/

/-- Notes a trade. -/
def applyTrade (book : Book) (execution : Execution) : Book :=
  { book with
    lastTrade? := some execution
    tradeCount := book.tradeCount + 1
    volume := addSaturating book.volume execution.size }

/-! ### Readings -/

/-- The highest bid. -/
def bestBid? (book : Book) : Option Level :=
  book.bids.best?

/-- The lowest ask. -/
def bestAsk? (book : Book) : Option Level :=
  book.asks.best?

/-- The mean of the best two prices, in doubles. -/
def mid? (book : Book) : Option Float := do
  let bid ← book.bestBid?
  let ask ← book.bestAsk?
  pure ((bid.price.toFloat + ask.price.toFloat) / 2.0)

/-- The distance of the best two prices, 0 when they cross. -/
def spread? (book : Book) : Option UInt64 := do
  let bid ← book.bestBid?
  let ask ← book.bestAsk?
  pure (subSaturating ask.price bid.price)

/-- How many levels each side has. -/
def levelCounts (book : Book) : Nat × Nat :=
  (book.bids.count, book.asks.count)

/-- Neither side has levels. -/
def isEmpty (book : Book) : Bool :=
  book.bids.isEmpty && book.asks.isEmpty

/-- Both sides of the book in full. -/
def depth (book : Book) : Depth :=
  { bids := book.bids.levels, asks := book.asks.levels }

/-! ### What an operation leaves alone -/

@[simp] theorem instrument_applyDiff (b : Book) (d : Update) :
    (b.applyDiff d).instrument = b.instrument := rfl
@[simp] theorem uid_applyDiff (b : Book) (d : Update) : (b.applyDiff d).uid = d.updateId := rfl
@[simp] theorem uid_replaceLevels (b : Book) (s : Update) :
    (b.replaceLevels s).uid = s.updateId := rfl
@[simp] theorem instrument_replaceLevels (b : Book) (s : Update) :
    (b.replaceLevels s).instrument = b.instrument := rfl
@[simp] theorem instrument_applyTrade (b : Book) (e : Execution) :
    (b.applyTrade e).instrument = b.instrument := rfl
@[simp] theorem bids_applyTrade (b : Book) (e : Execution) : (b.applyTrade e).bids = b.bids := rfl
@[simp] theorem asks_applyTrade (b : Book) (e : Execution) : (b.applyTrade e).asks = b.asks := rfl
@[simp] theorem uid_applyTrade (b : Book) (e : Execution) : (b.applyTrade e).uid = b.uid := rfl

end Book

end MarketDepth
