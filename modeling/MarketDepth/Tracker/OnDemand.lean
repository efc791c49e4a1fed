/-
**Refresh cycles on demand.**

A caller can run a cycle at any time.  It asks for a turn like the refresher does, waits for those
before it, and then waits for the directory.  While it waits, time passes for everybody.  At an
instant that the caller waits for it acts before the tasks whose timers fire then.  A caller with a
time limit gives up when the limit is reached, and then nothing of its cycle has happened.

Main definitions:

* `MarketDepth.Tracker.refresh` — **one caller**, who may have a time limit;
* `MarketDepth.Tracker.refreshBoth` — two callers at the same time;
* `MarketDepth.Tracker.refreshDetached` — a caller whose new workers do not outlive the call.
-/

import MarketDepth.Tracker.Clock

set_option relaxedAutoImplicit false
set_option autoImplicit false

namespace MarketDepth

/-- What a caller gets to hear about its cycle. -/
inductive RefreshAnswer where
  | done (outcome : RefreshOutcome)
  | failed (fault : Fault)
  /-- The cycle was given up at its time limit. -/
  | timedOut
  deriving DecidableEq, Inhabited

/-- The answer for a cycle that was not given up. -/
def RefreshAnswer.ofResult : Except Fault RefreshOutcome → RefreshAnswer
  | .ok outcome => .done outcome
  | .error fault => .failed fault

namespace Tracker

/-- When the directory answers the refresher, if that is whose turn it is. -/
def lookupDue? (t : Tracker) : Option Nat :=
  (t.timers.find? (·.2 == .refresher)).map (·.1)

/-- Asks for a turn. -/
def askTurn (t : Tracker) (who : Requester) : Tracker :=
  { t with turns := t.turns.ask who }

/-- Gives up a turn or the place in the line for one, and wakes the refresher if it is next. -/
def leaveTurn (t : Tracker) (who : Requester) : Tracker :=
  if t.turns.isHeldBy who then t.passTurn
  else { t with turns := t.turns.leave who }

/-- When a caller's turn comes: at once if it has it, else when the refresher's look-up is over. -/
def turnDue (t : Tracker) (now : Nat) (who : Requester) : Nat :=
  if t.turns.isHeldBy who then now else max now ((t.lookupDue?).getD now)

/-- Lets time pass until the turn comes; those before the caller are done then. -/
def awaitTurn (t : Tracker) (now : Nat) (who : Requester) : Nat × Tracker :=
  if t.turns.isHeldBy who then (now, t)
  else
    let due := t.turnDue now who
    (due, (t.reach now due).runDry due)

/-- Runs the cycle of the turn that has come, and lets everything run dry. -/
def runCycle (t : Tracker) (now : Nat) : Nat × Except Fault RefreshOutcome × Tracker :=
  let seen := t.board.trackedNames
  let due := now + t.directory.delay
  let t := { t with turns := t.turns.begin seen }
  let t := if t.directory.delay = 0 then t else t.reach now due
  let (result, t) := t.concludeCycle due seen
  (due, result, t.runDry due)

/-- **One cycle on demand,** and the time it takes until then. -/
def refresh (t : Tracker) (now : Nat) : Nat × RefreshAnswer × Tracker :=
  if t.isStopped then (now, .failed .stopped, t)
  else
    let who := Requester.caller 0
    let (now, t) := (t.askTurn who).awaitTurn now who
    let (now, result, t) := t.runCycle now
    (now, .ofResult result, t)

/-- One cycle on demand that is given up after a time.  A cycle that can end at the limit does. -/
def refreshWithin (t : Tracker) (now limit : Nat) : Nat × RefreshAnswer × Tracker :=
  if t.isStopped then (now, .failed .stopped, t)
  else
    let who := Requester.caller 0
    let deadline := now + limit
    let giveUp (now : Nat) (t : Tracker) : Nat × RefreshAnswer × Tracker :=
      let t := if now < deadline then t.reach now deadline else t
      (deadline, .timedOut, (t.leaveTurn who).runDry deadline)
    let t := t.askTurn who
    if t.turns.isHeldBy who = false ∧ deadline ≤ t.turnDue now who then giveUp now t
    else
      let (now, t) := t.awaitTurn now who
      if deadline < now + t.directory.delay then
        giveUp now { t with turns := t.turns.begin t.board.trackedNames }
      else
        let (now, result, t) := t.runCycle now
        (now, .ofResult result, t)

/-- Two cycles on demand, asked for at the same time. -/
def refreshBoth (t : Tracker) (now : Nat) : Nat × RefreshAnswer × RefreshAnswer × Tracker :=
  if t.isStopped then (now, .failed .stopped, .failed .stopped, t)
  else
    let first := Requester.caller 0
    let second := Requester.caller 1
    let t := (t.askTurn first).askTurn second
    let (now, t) := t.awaitTurn now first
    let (now, result₁, t) := t.runCycle now
    let (now, t) := t.awaitTurn now second
    let (now, result₂, t) := t.runCycle now
    (now, .ofResult result₁, .ofResult result₂, t)

/-- A cycle on demand that does not wait for the directory and whose new workers die with it: the
books are registered, but nobody works on them. -/
def refreshDetached (t : Tracker) (now : Nat) : RefreshAnswer × Tracker :=
  if t.isStopped then (.failed .stopped, t)
  else
    match t.directory.lookup with
    | (.error fault, directory) => (.failed fault, { t with directory })
    | (.ok found, directory) =>
        let (outcome, board) := t.board.converge now false t.board.trackedNames found
        (.done outcome, { t with directory, board })

end Tracker

end MarketDepth
