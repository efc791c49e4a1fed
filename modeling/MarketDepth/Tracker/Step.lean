/-
**What a ready task does next.**

A task that is ready takes one message from its input and stays first in line, or leaves the line
when its input is empty.  A fault is logged, and the task sleeps before it goes on; the message is
gone.  The refresher asks for a turn, looks the directory up and applies what it found, and sleeps
until its next cycle.

Main definitions:

* `MarketDepth.Tracker.concludeCycle` — the end of a refresh cycle, whoever runs it;
* `MarketDepth.Tracker.perform` — what a task does;
* `MarketDepth.Tracker.step?` — **the first of the ready tasks acts**.
-/

import MarketDepth.Tracker
import MarketDepth.Board.Refresh
import MarketDepth.Board.Routing
import MarketDepth.Board.Work

set_option relaxedAutoImplicit false
set_option autoImplicit false

namespace MarketDepth.Tracker

/-! ### After a message -/

/-- Logs a fault and lets the task sleep; a pause of no length is none. -/
def pause (t : Tracker) (now : Nat) (task : Task) (fault : Fault) : Tracker :=
  let delay := t.board.config.retryDelay
  let t := t.record [.failed task.role fault delay]
  if delay = 0 then t.goOn task else t.sleep (now + delay) task

/-- What a task does after a message: it goes on, or pauses if something went wrong. -/
def afterMessage (t : Tracker) (now : Nat) (task : Task) : Option Fault → Tracker
  | none => t.goOn task
  | some fault => t.pause now task fault

/-- Wakes the worker of an instrument. -/
def wakeWorker (t : Tracker) (instrument : String) : Tracker :=
  match t.board.find? instrument with
  | some r => t.wake (.worker instrument r.serial)
  | none => t

/-- What a router does after a message: the worker is woken if it got the message. -/
def afterRouting (t : Tracker) (now : Nat) (task : Task) (instrument : String) :
    Except Fault Offer → Tracker
  | .ok .queued => (t.wakeWorker instrument).goOn task
  | .ok _ => t.goOn task
  | .error fault => t.pause now task fault

/-! ### Refresh cycles -/

/-- Passes the turn on and wakes the refresher if it is next. -/
def passTurn (t : Tracker) : Tracker :=
  let t := { t with turns := t.turns.pass }
  if t.turns.isHeldBy .periodic then t.wake .refresher else t

/-- Makes the workers of new registrations ready. -/
def spawnWorkers (t : Tracker) (registrations : List Registration) : Tracker :=
  { t with ready := t.ready ++ registrations.map fun r => .worker r.instrument r.serial }

/-- **The end of a refresh cycle** that began when `seen` were live: the directory is looked up,
the board converges on what was found, and the turn is passed on. -/
def concludeCycle (t : Tracker) (now : Nat) (seen : List String) :
    Except Fault RefreshOutcome × Tracker :=
  match t.directory.lookup with
  | (.error fault, directory) => (.error fault, { t with directory }.passTurn)
  | (.ok found, directory) =>
      let (outcome, board) := t.board.converge now true seen found
      let t' := { t with directory, board }
      (.ok outcome, (t'.spawnWorkers (board.madeSince t.board.nextSerial)).passTurn)

/-- The refresher's cycle ends, and it sleeps until the next: for the refresh interval, or for the
retry delay after a fault.  An interval of no length is outside of what is said here: it counts as a
millisecond, so that the refresher sleeps in any case after a cycle that succeeded. -/
def finishPeriodic (t : Tracker) (now : Nat) (seen : List String) : Tracker :=
  match t.concludeCycle now seen with
  | (.ok _, t) => t.sleep (now + max 1 t.board.config.refreshInterval) .refresher
  | (.error fault, t) => t.pause now .refresher fault

/-- The refresher has its turn: it notes what is live and waits for the directory. -/
def beginPeriodic (t : Tracker) (now : Nat) : Tracker :=
  let seen := t.board.trackedNames
  let t := { t with turns := t.turns.begin seen }
  if t.directory.delay = 0 then t.finishPeriodic now seen
  else t.sleep (now + t.directory.delay) .refresher

/-- What the refresher does: it ends the cycle that it is in, or begins the one whose turn it has,
or asks for a turn. -/
def refreshStep (t : Tracker) (now : Nat) : Tracker :=
  match t.turns.current? with
  | some { owner := .periodic, seen? := some seen } => t.finishPeriodic now seen
  | some { owner := .periodic, seen? := none } => t.beginPeriodic now
  | some { owner := .caller _, seen? := _ } => { t with turns := t.turns.ask .periodic }
  | none => { t with turns := t.turns.ask .periodic }.beginPeriodic now

/-! ### Tasks -/

/-- What a task does that has left the line of the ready ones for its turn. -/
def perform (t : Tracker) (now : Nat) : Task → Tracker
  | .tradeEmitter =>
      match t.trades with
      | [] => t
      | m :: trades =>
          let (fault?, board) := t.board.emitTrade now m
          { t with trades, board }.afterMessage now .tradeEmitter fault?
  | .diffRouter =>
      match t.diffs with
      | [] => t
      | m :: diffs =>
          let (result, board) := t.board.routeDiff now m
          { t with diffs, board }.afterRouting now .diffRouter m.instrument result
  | .snapshotRouter =>
      match t.snapshots with
      | [] => t
      | m :: snapshots =>
          let (result, board) := t.board.routeSnapshot m
          { t with snapshots, board }.afterRouting now .snapshotRouter m.instrument result
  | .refresher => t.refreshStep now
  | .worker instrument serial =>
      match t.board.find? instrument with
      | none => t
      | some r =>
          if r.serial = serial ∧ r.inbox ≠ [] then
            let (fault?, board) := t.board.work now instrument
            { t with board }.afterMessage now (.worker instrument serial) fault?
          else t

/-- **The first of the ready tasks acts,** if there is one. -/
def step? (t : Tracker) (now : Nat) : Option Tracker :=
  match t.ready with
  | [] => none
  | task :: ready => some ({ t with ready }.perform now task)

end MarketDepth.Tracker
