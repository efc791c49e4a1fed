/-
**The board: what all tasks of a tracker share.**

The board has the registry of tracked instruments, the books of retired registrations, the
lifetime totals, the resync requests that were published and the log.  Every task acts on it in
steps that handle one message or apply one directory look-up; each step is a function of the board,
so that steps can be put in any order.

Main definitions:

* `MarketDepth.Board`, with `Board.start`, `Board.trackedNames` and `Board.bookOf?`;
* `MarketDepth.Board.record`, `MarketDepth.Board.requestSnapshot` — logging and publishing;
* `MarketDepth.Board.killWorkers` — the end of all workers.
-/

import MarketDepth.Config
import MarketDepth.NameTable
import MarketDepth.Registration

set_option relaxedAutoImplicit false
set_option autoImplicit false

namespace MarketDepth

/-- What all tasks of a tracker share. -/
structure Board where
  config : Config
  registry : NameTable Registration := .empty
  /-- The books of registrations that were retired or replaced, by serial number. -/
  retired : List (Nat × Book) := []
  /-- The serial number of the next registration. -/
  nextSerial : Nat := 0
  totals : Totals := {}
  diffTally : Tally := .start 0
  tradeTally : Tally := .start 0
  /-- The instruments that need a new snapshot, in the order in which they were published. -/
  resyncs : List String := []
  /-- The events logged, oldest first. -/
  log : List Event := []
  deriving DecidableEq, Inhabited

namespace Board

/-- A board on which nothing is registered. -/
def start (config : Config) : Board := { config }

/-! ### Readings -/

/-- The registration of an instrument. -/
def find? (b : Board) (instrument : String) : Option Registration :=
  b.registry.find? instrument

/-- The instruments with a live worker, ascending. -/
def trackedNames (b : Board) : List String :=
  (b.registry.entries.filter (·.2.live)).map (·.1)

/-- The book of a registration, current or not. -/
def bookOf? (b : Board) (serial : Nat) : Option Book :=
  match b.registry.values.find? (·.serial == serial) with
  | some r => some r.book
  | none => b.retired.lookup serial

/-! ### Small changes -/

/-- Logs events. -/
def record (b : Board) (events : List Event) : Board :=
  { b with log := b.log ++ events }

/-- Publishes that an instrument needs a new snapshot, and logs why. -/
def requestSnapshot (b : Board) (instrument : String) (reason : Event) : Board :=
  { b with resyncs := b.resyncs ++ [instrument], log := b.log ++ [reason] }

/-- Puts a changed registration in the place of the one of its instrument. -/
def setRegistration (b : Board) (instrument : String) (r : Registration) : Board :=
  { b with registry := b.registry.adjust instrument fun _ => r }

/-- Ends every worker; the books stay. -/
def killWorkers (b : Board) : Board :=
  { b with registry := b.registry.map (·.kill) }

@[simp] theorem registry_record (b : Board) (events : List Event) :
    (b.record events).registry = b.registry := rfl

@[simp] theorem config_record (b : Board) (events : List Event) :
    (b.record events).config = b.config := rfl

@[simp] theorem registry_requestSnapshot (b : Board) (instrument : String) (reason : Event) :
    (b.requestSnapshot instrument reason).registry = b.registry := rfl

@[simp] theorem registry_setRegistration (b : Board) (instrument : String) (r : Registration) :
    (b.setRegistration instrument r).registry = b.registry.adjust instrument fun _ => r := rfl

/-! ### Messages that wait -/

/-- How many messages wait in all queues. -/
def queued (b : Board) : Nat :=
  b.registry.weigh (·.inbox.length)

@[simp] theorem queued_record (b : Board) (events : List Event) :
    (b.record events).queued = b.queued := rfl

@[simp] theorem queued_requestSnapshot (b : Board) (instrument : String) (reason : Event) :
    (b.requestSnapshot instrument reason).queued = b.queued := rfl

/-- Putting a registration in the place of another changes the number of waiting messages by the
difference of their queues. -/
theorem queued_setRegistration {b : Board} {instrument : String} {old : Registration}
    (new : Registration) (h : b.find? instrument = some old) :
    (b.setRegistration instrument new).queued + old.inbox.length =
      b.queued + new.inbox.length :=
  NameTable.weigh_adjust (·.inbox.length) (fun _ => new) h

end Board

end MarketDepth
