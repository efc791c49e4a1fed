/-
**Trackers.**

A tracker runs a few tasks over a board: the emitter and the two routers, each with a stream of
messages, the refresher, and a worker for each registered instrument.  Tasks take turns on one
processor: the ready ones stand in line, and the sleeping ones are woken by timers.

Main definitions:

* `MarketDepth.Task` — the tasks;
* `MarketDepth.Phase` — where a tracker is in its life;
* `MarketDepth.Tracker` — **board, directory, streams, ready line and timers**;
* `MarketDepth.Tracker.wake`, `MarketDepth.Tracker.sleep`, `MarketDepth.Tracker.fire` — the moves
  between waiting, sleeping and being ready.
-/

import MarketDepth.Board
import MarketDepth.Directory
import MarketDepth.Turns

set_option relaxedAutoImplicit false
set_option autoImplicit false

namespace MarketDepth

/-- A task of a tracker.  A worker belongs to one registration. -/
inductive Task where
  | tradeEmitter
  | diffRouter
  | snapshotRouter
  | refresher
  | worker (instrument : String) (serial : Nat)
  deriving DecidableEq, Inhabited

/-- What a task does. -/
def Task.role : Task → Role
  | tradeEmitter => .tradeEmitter
  | diffRouter => .diffRouter
  | snapshotRouter => .snapshotRouter
  | refresher => .refresher
  | worker .. => .worker

/-- Where a tracker is in its life. -/
inductive Phase where
  /-- It has not been started; its streams only collect messages. -/
  | idle
  | running
  /-- It will not run again.  Its streams are closed if it ever ran. -/
  | stopped (ran : Bool)
  /-- It is gone. -/
  | dropped
  deriving DecidableEq, Inhabited

/-- A tracker. -/
structure Tracker where
  board : Board
  directory : Directory := {}
  /-- The messages of the diff stream that no task has taken yet, oldest first. -/
  diffs : List Message := []
  snapshots : List Message := []
  trades : List Message := []
  /-- The tasks that can go on, in the order of their turns. -/
  ready : List Task := []
  /-- The sleeping tasks with the times they sleep until, in the order in which they fell asleep. -/
  timers : List (Nat × Task) := []
  /-- The turns of the refresh cycles. -/
  turns : Turns := .free
  phase : Phase := .idle
  /-- Somebody reads the resync requests. -/
  resyncTaken : Bool := false
  deriving DecidableEq, Inhabited

namespace Tracker

/-- A tracker that has not been started, or what is wrong with its settings. -/
def new (config : Config) (directory : Directory) : Except Fault Tracker :=
  config.validate.map fun () => { board := .start config, directory }

/-! ### Waiting, sleeping and being ready -/

/-- Lets a waiting task go on, behind all that are ready.  One that is ready or asleep stays so. -/
def wake (t : Tracker) (task : Task) : Tracker :=
  if t.ready.contains task || t.timers.any (·.2 == task) then t
  else { t with ready := t.ready ++ [task] }

/-- Lets a task sleep until a time. -/
def sleep (t : Tracker) (deadline : Nat) (task : Task) : Tracker :=
  { t with timers := t.timers ++ [(deadline, task)] }

/-- Lets a task go on at once, before all that are ready. -/
def goOn (t : Tracker) (task : Task) : Tracker :=
  { t with ready := task :: t.ready }

/-- Makes the tasks ready whose time has come, in the order in which they fell asleep. -/
def fire (t : Tracker) (now : Nat) : Tracker :=
  { t with
    ready := t.ready ++ (t.timers.filter (·.1 ≤ now)).map (·.2)
    timers := t.timers.filter fun timer => now < timer.1 }

/-- When the first of the sleeping tasks wakes up. -/
def nextDue? (t : Tracker) : Option Nat :=
  (t.timers.map (·.1)).min?

/-- Logs events. -/
def record (t : Tracker) (events : List Event) : Tracker :=
  { t with board := t.board.record events }

/-! ### Readings -/

/-- At least one book is there, and no fewer than the directory wants. -/
def isReady (t : Tracker) : Bool :=
  0 < t.board.registry.size && t.directory.wantedCount ≤ t.board.registry.size

/-- The tracker was started at some time. -/
def wasStarted (t : Tracker) : Bool :=
  match t.phase with
  | .idle => false
  | .running => true
  | .stopped ran => ran
  | .dropped => false

/-- The tracker has been stopped for good. -/
def isStopped (t : Tracker) : Bool :=
  match t.phase with
  | .stopped _ => true
  | _ => false

/-- How many tasks run besides the workers. -/
def taskCount (t : Tracker) : Nat :=
  if t.phase = .running then 4 else 0

/-- A sentence about the tracker for those who look for faults. -/
def describe (t : Tracker) : String :=
  "Tracker \x7b books: " ++ toString t.board.registry.size ++
    ", started: " ++ toString t.wasStarted ++
    ", tasks: " ++ toString t.taskCount ++
    ", stopped: " ++ toString t.isStopped ++ " \x7d"

end Tracker

end MarketDepth
