/-
**Counting what happens.**

A tally counts what a task accepted and rejected since its last report.  A report hands out both
numbers and starts over; it is due once the interval has passed since the last one.  The totals
count over the whole life of a tracker and are never reset.

Main definitions:

* `MarketDepth.Tally`, `MarketDepth.Tally.takeReport` — **a report, if one is due**;
* `MarketDepth.Totals` — the lifetime counters.

Main results:

* `MarketDepth.Tally.takeReport_eq_none_iff` — there is no report exactly while the interval lasts.
-/

set_option relaxedAutoImplicit false
set_option autoImplicit false

namespace MarketDepth

/-! ### Reports -/

/-- What a task has counted since `since`, the time of its last report. -/
structure Tally where
  since : Nat
  /-- Like all counters, a natural number that is taken to stay below `2 ^ 64`. -/
  accepted : Nat := 0
  rejected : Nat := 0
  deriving DecidableEq, Inhabited

namespace Tally

/-- A tally that begins at a time. -/
def start (now : Nat) : Tally := { since := now }

/-- Counts something accepted. -/
def accept (tally : Tally) : Tally :=
  { tally with accepted := tally.accepted + 1 }

/-- Counts something rejected. -/
def reject (tally : Tally) : Tally :=
  { tally with rejected := tally.rejected + 1 }

/-- **The counts, if a report is due,** and the tally after it. -/
def takeReport (tally : Tally) (interval now : Nat) : Option (Nat × Nat) × Tally :=
  if now - tally.since < interval then (none, tally)
  else (some (tally.accepted, tally.rejected), start now)

theorem takeReport_eq_none_iff {tally : Tally} {interval now : Nat} :
    (tally.takeReport interval now).1 = none ↔ now - tally.since < interval := by
  unfold takeReport
  split <;> simp_all

end Tally

/-! ### Totals -/

/-- The lifetime counters of a tracker, taken to stay below `2 ^ 64` as those of a tally are. -/
structure Totals where
  /-- Diffs put into a queue. -/
  diffsAccepted : Nat := 0
  /-- Diffs that were stale, unknown or lost to a full queue. -/
  diffsRejected : Nat := 0
  /-- Snapshots put into a queue. -/
  snapshotsRouted : Nat := 0
  /-- Snapshots of unknown instruments. -/
  snapshotsDropped : Nat := 0
  /-- Trades applied to a book. -/
  tradesAccepted : Nat := 0
  /-- Trades of unknown instruments. -/
  tradesRejected : Nat := 0
  /-- Messages lost to a full queue. -/
  queueOverflows : Nat := 0
  deriving DecidableEq, Inhabited

end MarketDepth
