/-
**Letting time pass.**

The clock jumps from one due timer to the next.  At each jump the timers that are due fire, and
everything that can run runs dry before the clock moves again.

Main definitions:

* `MarketDepth.Tracker.reach` — the tracker as a later time begins: the timers due then have
  fired, but nobody has acted on them yet;
* `MarketDepth.Tracker.advance` — **the tracker after a span of time**.
-/

import MarketDepth.Tracker.Run

set_option relaxedAutoImplicit false
set_option autoImplicit false

namespace MarketDepth.Tracker

/-- The tracker as the time `target` begins: everything due before it is done, and the timers due
at it have fired. -/
def reach (t : Tracker) (now target : Nat) : Tracker :=
  match t.nextDue? with
  | none => t.fire target
  | some due =>
      if now < target ∧ due < target then
        let later := max due (now + 1)
        ((t.fire later).runDry later).reach later target
      else t.fire target
termination_by target - now
decreasing_by omega

/-- **The tracker after a span of time,** everything due at its end included. -/
def advance (t : Tracker) (now span : Nat) : Tracker :=
  (t.reach now (now + span)).runDry (now + span)

end MarketDepth.Tracker
