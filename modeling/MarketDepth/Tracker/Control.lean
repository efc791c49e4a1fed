/-
**Starting, stopping and feeding a tracker.**

Main definitions:

* `MarketDepth.Tracker.start`, `MarketDepth.Tracker.stop`, `MarketDepth.Tracker.drop` — the steps of
  a tracker's life;
* `MarketDepth.Tracker.send` — **messages from outside**, each to a stream;
* `MarketDepth.Tracker.takeResyncs`, `MarketDepth.Tracker.takeLog` — what has been published.
-/

import MarketDepth.Tracker.Run

set_option relaxedAutoImplicit false
set_option autoImplicit false

namespace MarketDepth.Tracker

/-! ### The life of a tracker -/

/-- Starts the tasks.  They run once the caller lets them. -/
def start (t : Tracker) (now : Nat) : Except Fault Tracker :=
  match t.phase with
  | .idle =>
      .ok { t with
        phase := .running
        ready := t.ready ++ [.tradeEmitter, .diffRouter, .snapshotRouter, .refresher]
        board := { t.board with
          diffTally := .start now
          tradeTally := .start now }.record [.started] }
  | .running => .error .alreadyStarted
  | .stopped _ | .dropped => .error .stopped

/-- Ends all tasks, whatever they are doing.  The books stay as they are. -/
def endTasks (t : Tracker) : Tracker :=
  { t with
    ready := []
    timers := []
    turns := .free
    board := t.board.killWorkers }

/-- Takes what is left in the streams away. -/
def clearStreams (t : Tracker) : Tracker :=
  { t with diffs := [], snapshots := [], trades := [] }

/-- **Stops a tracker for good.**  The streams close if it ran; a tracker that never did goes on
collecting messages that nobody will take. -/
def stop (t : Tracker) : Tracker :=
  match t.phase with
  | .idle => { t.endTasks with phase := .stopped false }
  | .running => { t.endTasks.clearStreams with phase := .stopped true }.record [.stopped]
  | .stopped _ | .dropped => t

/-- Lets go of a tracker.  Its books are still there for those who hold them. -/
def drop (t : Tracker) : Tracker :=
  { t.endTasks.clearStreams with phase := .dropped }

/-- The streams take messages. -/
def isOpen (t : Tracker) : Bool :=
  match t.phase with
  | .idle | .running | .stopped false => true
  | .stopped true | .dropped => false

/-! ### Messages from outside -/

/-- Puts a message on the stream for a kind and wakes the task that reads it. -/
def push (t : Tracker) (stream : Kind) (m : Message) : Tracker :=
  let (t, reader) : Tracker × Task := match stream with
    | .diff => ({ t with diffs := t.diffs ++ [m] }, .diffRouter)
    | .snapshot => ({ t with snapshots := t.snapshots ++ [m] }, .snapshotRouter)
    | .trade => ({ t with trades := t.trades ++ [m] }, .tradeEmitter)
  if t.phase = .running then t.wake reader else t

/-- **Sends messages,** each to the stream of a kind, and tells how many were taken; closed streams
take none. -/
def send (t : Tracker) (messages : List (Kind × Message)) : Nat × Tracker :=
  if t.isOpen then (messages.length, messages.foldl (fun t m => t.push m.1 m.2) t) else (0, t)

/-! ### What has been published -/

/-- Takes the reading end of the resync requests; it can be had once. -/
def takeResyncReader (t : Tracker) : Bool × Tracker :=
  (!t.resyncTaken, { t with resyncTaken := true })

/-- The resync requests published since they were last read, if somebody reads them. -/
def takeResyncs (t : Tracker) : Option (List String) × Tracker :=
  if t.resyncTaken then
    (some t.board.resyncs, { t with board := { t.board with resyncs := [] } })
  else (none, t)

/-- The events logged since the log was last taken. -/
def takeLog (t : Tracker) : List Event × Tracker :=
  (t.board.log, { t with board := { t.board with log := [] } })

end MarketDepth.Tracker
