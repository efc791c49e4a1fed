/-
**One side of a book.**

A ladder lists the price levels of one side, best price first: bids from the highest price down,
asks from the lowest up.  Setting a level replaces the one at its price, and a size of 0 removes it.

Main definitions:

* `MarketDepth.Side.outranks` — one price is better than another;
* `MarketDepth.Ladder` — the levels of a side;
* `MarketDepth.Ladder.set`, `MarketDepth.Ladder.setAll` — **one level, and many in turn**;
* `MarketDepth.Ladder.sizeAt?` — the size offered at a price.
-/

import MarketDepth.Message

set_option relaxedAutoImplicit false
set_option autoImplicit false

namespace MarketDepth

/-! ### Sides -/

/-- The two sides of a book. -/
inductive Side where
  | bid
  | ask
  deriving DecidableEq, Inhabited

/-- A buyer who pays more comes first, and so does a seller who asks less. -/
def Side.outranks : Side → UInt64 → UInt64 → Bool
  | bid, p, q => q < p
  | ask, p, q => p < q

@[simp] theorem Side.outranks_bid (p q : UInt64) : Side.bid.outranks p q = decide (q < p) := rfl
@[simp] theorem Side.outranks_ask (p q : UInt64) : Side.ask.outranks p q = decide (p < q) := rfl

/-! ### Ladders -/

/-- The price levels of one side, best first. -/
structure Ladder (side : Side) where
  levels : List Level := []
  deriving DecidableEq, Inhabited

namespace Ladder

variable {side : Side}

/-- A side without offers. -/
def empty : Ladder side := {}

/-- The ladder without the level at a price. -/
def remove (ladder : Ladder side) (price : UInt64) : Ladder side :=
  { levels := ladder.levels.filter (·.price != price) }

/-- The ladder with one more level, behind those that outrank it. -/
def insert (ladder : Ladder side) (level : Level) : Ladder side :=
  { levels := ladder.levels.takeWhile (fun x => side.outranks x.price level.price) ++
      level :: ladder.levels.dropWhile (fun x => side.outranks x.price level.price) }

/-- **Sets one level.**  What stood at its price goes; a level of size 0 leaves nothing there. -/
def set (ladder : Ladder side) (level : Level) : Ladder side :=
  if level.size = 0 then ladder.remove level.price
  else (ladder.remove level.price).insert level

/-- Sets levels one after the other, so that of two at one price the later counts. -/
def setAll (ladder : Ladder side) (levels : List Level) : Ladder side :=
  levels.foldl set ladder

/-- The ladder that a list of levels builds from nothing. -/
def ofLevels (levels : List Level) : Ladder side :=
  empty.setAll levels

@[simp] theorem setAll_nil (ladder : Ladder side) : ladder.setAll [] = ladder := rfl

@[simp] theorem setAll_cons (ladder : Ladder side) (l : Level) (ls : List Level) :
    ladder.setAll (l :: ls) = (ladder.set l).setAll ls := rfl

@[simp] theorem setAll_append (ladder : Ladder side) (ls ls' : List Level) :
    ladder.setAll (ls ++ ls') = (ladder.setAll ls).setAll ls' := by
  simp [setAll]

/-! ### Readings -/

/-- The best level. -/
def best? (ladder : Ladder side) : Option Level :=
  ladder.levels.head?

/-- The best `n` levels. -/
def top (ladder : Ladder side) (n : Nat) : List Level :=
  ladder.levels.take n

/-- How many levels there are. -/
def count (ladder : Ladder side) : Nat :=
  ladder.levels.length

/-- The side has no offers. -/
def isEmpty (ladder : Ladder side) : Bool :=
  ladder.levels.isEmpty

/-- The size offered at a price. -/
def sizeAt? (ladder : Ladder side) (price : UInt64) : Option UInt64 :=
  (ladder.levels.find? (·.price == price)).map (·.size)

@[simp] theorem levels_empty : (empty : Ladder side).levels = [] := rfl
@[simp] theorem sizeAt?_empty (price : UInt64) : (empty : Ladder side).sizeAt? price = none := rfl

end Ladder

end MarketDepth
