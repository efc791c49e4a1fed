/-
**Everything that is kept for one tracked instrument.**

A registration has a reconciler for the book, a queue of messages that wait for it, the mark that a
new snapshot has been asked for, and the worker's tally.  Its worker handles the queue one message
at a time; once the worker is dead the queue is closed, and the book can only be read and traded on.

Main definitions:

* `MarketDepth.Registration`, `MarketDepth.Registration.start`;
* `MarketDepth.Registration.handle` — **the worker handles one message**.
-/

import MarketDepth.Event
import MarketDepth.Reconciler
import MarketDepth.Tally

set_option relaxedAutoImplicit false
set_option autoImplicit false

namespace MarketDepth

/-- Everything that is kept for one tracked instrument. -/
structure Registration where
  /-- Tells this registration from earlier ones of the same instrument. -/
  serial : Nat
  instrument : String
  reconciler : Reconciler
  /-- The messages that wait for the worker, oldest first. -/
  inbox : List Message := []
  /-- Set when a message is lost to a full queue, cleared when a snapshot is applied. -/
  resyncPending : Bool := false
  tally : Tally
  /-- The worker has not terminated. -/
  live : Bool
  deriving DecidableEq, Inhabited

namespace Registration

/-- The book of the registration. -/
def book (r : Registration) : Book :=
  r.reconciler.book

/-- A registration as it begins: nothing waits, nothing is remembered, nothing is asked for. -/
def start (serial : Nat) (instrument : String) (book : Book) (windowSize now : Nat)
    (live : Bool) : Registration :=
  { serial, instrument, reconciler := .start book windowSize, tally := .start now, live }

/-- Ends the worker.  What waits for it is lost. -/
def kill (r : Registration) : Registration :=
  { r with live := false, inbox := [] }

/-- Notes a trade on the book. -/
def applyTrade (r : Registration) (execution : Execution) : Registration :=
  { r with reconciler := { r.reconciler with book := r.book.applyTrade execution } }

/-- The worker applies a diff or skips it.  Only an applied diff may bring a report. -/
def handleDiff (r : Registration) (statsInterval now : Nat) (diff : Update) :
    Registration × List Event :=
  match r.reconciler.applyDiff? diff with
  | none =>
      ({ r with tally := r.tally.reject },
        [.staleDiff r.instrument diff.updateId r.book.uid])
  | some reconciler =>
      match r.tally.accept.takeReport statsInterval now with
      | (none, tally) => ({ r with reconciler, tally }, [])
      | (some (applied, stale), tally) =>
          ({ r with reconciler, tally }, [.workerReport r.instrument applied stale])

/-- The worker applies a snapshot, which answers the request for one. -/
def handleSnapshot (r : Registration) (snapshot : Update) : Registration × List Event :=
  let reconciler := r.reconciler.restore snapshot
  let done : Event := .snapshotApplied r.instrument snapshot.updateId reconciler.book.uid
    reconciler.window.diffs.length
  ({ r with reconciler, resyncPending := false },
    if reconciler.window.isEmpty then [.nothingBuffered r.instrument, done] else [done])

/-- **The worker handles one message.**  A trade does not belong in its queue. -/
def handle (r : Registration) (statsInterval now : Nat) :
    Message → Except Fault (Registration × List Event)
  | .diff d => .ok (r.handleDiff statsInterval now d)
  | .snapshot s => .ok (r.handleSnapshot s)
  | .trade _ => .error (.unexpectedMessage .trade "inbound")

theorem inbox_handleDiff (r : Registration) (statsInterval now : Nat) (d : Update) :
    (r.handleDiff statsInterval now d).1.inbox = r.inbox := by
  unfold handleDiff
  split
  · rfl
  · split <;> rfl

theorem inbox_handleSnapshot (r : Registration) (s : Update) :
    (r.handleSnapshot s).1.inbox = r.inbox := rfl

/-- Handling a message leaves the queue alone. -/
theorem inbox_handle {r r' : Registration} {statsInterval now : Nat} {m : Message}
    {events : List Event} (h : r.handle statsInterval now m = .ok (r', events)) :
    r'.inbox = r.inbox := by
  cases m with
  | diff d =>
      simp only [handle, Except.ok.injEq] at h
      rw [← inbox_handleDiff r statsInterval now d, h]
  | snapshot s =>
      simp only [handle, Except.ok.injEq] at h
      rw [← inbox_handleSnapshot r s, h]
  | trade t => simp [handle] at h

end Registration

end MarketDepth
