/-
**The step of a worker.**

Main definitions:

* `MarketDepth.Board.work` — **the worker of an instrument takes one message from its queue.**

Main results:

* `MarketDepth.Board.queued_work` — a step that finds a message leaves one less.
-/

import MarketDepth.Board

set_option relaxedAutoImplicit false
set_option autoImplicit false

namespace MarketDepth.Board

/-- **The worker of an instrument takes one message from its queue,** if there is one.  A message
that it cannot handle is gone all the same. -/
def work (b : Board) (now : Nat) (instrument : String) : Option Fault × Board :=
  match b.find? instrument with
  | none => (none, b)
  | some r =>
      match r.inbox with
      | [] => (none, b)
      | m :: inbox =>
          let r := { r with inbox }
          match r.handle b.config.statsInterval now m with
          | .ok (r, events) => (none, (b.setRegistration instrument r).record events)
          | .error fault => (some fault, b.setRegistration instrument r)

/-- A step that finds a message leaves one less. -/
theorem queued_work {b : Board} {now : Nat} {instrument : String} {r : Registration}
    {m : Message} {inbox : List Message} (hr : b.find? instrument = some r)
    (hm : r.inbox = m :: inbox) : (b.work now instrument).2.queued + 1 = b.queued := by
  have drop : ∀ r' : Registration, r'.inbox = inbox →
      (b.setRegistration instrument r').queued + 1 = b.queued := by
    intro r' h'
    have := queued_setRegistration r' hr
    rw [hm, h'] at this
    simp only [List.length_cons] at this
    omega
  simp only [work, hr, hm]
  split
  next r' events h => exact drop r' (by rw [Registration.inbox_handle h])
  next fault h => exact drop _ rfl

end MarketDepth.Board
