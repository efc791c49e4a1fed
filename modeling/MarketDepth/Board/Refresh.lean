/-
**The step of a refresh cycle.**

A cycle compares what a directory look-up found with the instruments that had a live worker when
the cycle began.  What was found and not live is registered anew, whatever was registered under
its name; what is registered and was not found is retired.  Live instruments that were found are
left alone.

Main definitions:

* `MarketDepth.RefreshOutcome` — the names added and removed;
* `MarketDepth.Board.register`, `MarketDepth.Board.retire` — one name;
* `MarketDepth.Board.converge` — **one cycle**.
-/

import MarketDepth.Board
import MarketDepth.Directory

set_option relaxedAutoImplicit false
set_option autoImplicit false

namespace MarketDepth

/-- The names that a cycle added and removed, each in the order of its work. -/
structure RefreshOutcome where
  added : List String := []
  removed : List String := []
  deriving DecidableEq, Inhabited

/-- The cycle changed nothing. -/
def RefreshOutcome.isEmpty (outcome : RefreshOutcome) : Bool :=
  outcome.added.isEmpty && outcome.removed.isEmpty

namespace Board

/-- Keeps the book of the instrument's registration, if it has one, for those who hold it. -/
def archive (b : Board) (instrument : String) : Board :=
  match b.find? instrument with
  | some old => { b with retired := (old.serial, old.book) :: b.retired }
  | none => b

/-- Registers an entry under its own instrument, in place of what is registered there. -/
def register (b : Board) (now : Nat) (live : Bool) (listing : Listing) : Board :=
  let b := b.archive listing.instrument
  { b with
    registry := b.registry.insert listing.instrument
      (.start b.nextSerial listing.instrument listing.book b.config.windowSize now live)
    nextSerial := b.nextSerial + 1 }.record [.trackingStarted listing.instrument]

/-- Removes the registration of an instrument. -/
def retire (b : Board) (instrument : String) : Board :=
  let b := b.archive instrument
  { b with registry := b.registry.erase instrument }.record [.trackingStopped instrument]

/-- The entries of a look-up that a cycle registers: those whose key was not live, by their
instruments. -/
def newListings (seen : List String) (found : Catalog) : List Listing :=
  ((found.entries.filter fun e => !seen.contains e.1).map (·.2)).mergeSort
    fun a b => a.instrument ≤ b.instrument

/-- **One refresh cycle:** `seen` are the instruments that were live when it began, `found` is the
result of its look-up, and `live` tells whether the new workers are there to stay. -/
def converge (b : Board) (now : Nat) (live : Bool) (seen : List String) (found : Catalog) :
    RefreshOutcome × Board :=
  let new := newListings seen found
  let b := new.foldl (·.register now live) b
  let gone := b.registry.names.filter fun name => !found.contains name
  let b := gone.foldl (·.retire) b
  let outcome : RefreshOutcome := { added := new.map (·.instrument), removed := gone }
  (outcome,
    if outcome.isEmpty then b
    else b.record [.refreshed outcome.added.length outcome.removed.length b.registry.size])

/-- The registrations made since the serial number was `serial`, ascending by name. -/
def madeSince (b : Board) (serial : Nat) : List Registration :=
  b.registry.values.filter fun r => serial ≤ r.serial

@[simp] theorem config_archive (b : Board) (instrument : String) :
    (b.archive instrument).config = b.config := by
  unfold archive; split <;> rfl

@[simp] theorem registry_archive (b : Board) (instrument : String) :
    (b.archive instrument).registry = b.registry := by
  unfold archive; split <;> rfl

end Board

end MarketDepth
