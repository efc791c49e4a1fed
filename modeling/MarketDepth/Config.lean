/-
**Settings of a tracker.**

Main definitions:

* `MarketDepth.Config` — sizes of windows and queues, and the pace of the recurring tasks in
  milliseconds;
* `MarketDepth.Config.validate` — a window or a queue without room is refused.

Main results:

* `MarketDepth.Config.validate_eq_ok_iff` — exactly the settings with room in both are accepted.
-/

import MarketDepth.Fault

set_option relaxedAutoImplicit false
set_option autoImplicit false

namespace MarketDepth

/-- The settings of a tracker.  Intervals are in milliseconds.  Sizes and intervals are natural
numbers, not machine words. -/
structure Config where
  /-- How many of the diffs last applied are kept for replay. -/
  windowSize : Nat := 32
  /-- How many messages may wait for one instrument. -/
  queueCapacity : Nat := 1024
  /-- The pause after a refresh cycle that succeeded.  One of no length is left out of account: a
  tracker pauses for a millisecond then, see `Tracker.finishPeriodic`. -/
  refreshInterval : Nat := 3600000
  /-- The pause of a task after a fault. -/
  retryDelay : Nat := 5000
  /-- The least time between two activity reports of a task. -/
  statsInterval : Nat := 60000
  deriving DecidableEq, Inhabited

namespace Config

/-- Refuses a window or a queue without room; the window is looked at first.  The room that an
accepted size asks for is taken to be there, so the limits of allocation are left out of account. -/
def validate (config : Config) : Except Fault Unit :=
  if config.windowSize = 0 then
    .error (.config "diff_window_size must be at least 1")
  else if config.queueCapacity = 0 then
    .error (.config "queue_capacity must be at least 1")
  else
    .ok ()

theorem validate_eq_ok_iff {config : Config} :
    config.validate = .ok () ↔ 1 ≤ config.windowSize ∧ 1 ≤ config.queueCapacity := by
  unfold validate
  split
  · simp; omega
  · split
    · simp; omega
    · simp; omega

end Config

end MarketDepth
