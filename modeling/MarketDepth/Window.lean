/-
**The window of recent diffs.**

A window remembers the diffs pushed last, oldest first, up to its capacity.

Main definitions:

* `MarketDepth.Window`, `MarketDepth.Window.push`.

Main results:

* `MarketDepth.Window.length_push_le` — **a window never holds more than its capacity.**
-/

import MarketDepth.Message

set_option relaxedAutoImplicit false
set_option autoImplicit false

namespace MarketDepth

/-- The diffs pushed last, oldest first. -/
structure Window where
  capacity : Nat
  diffs : List Update := []
  deriving DecidableEq, Inhabited

namespace Window

/-- A window that has seen no diff. -/
def empty (capacity : Nat) : Window := { capacity }

/-- The last `n` elements of a list. -/
def keepLast {α : Type} (n : Nat) (xs : List α) : List α :=
  xs.drop (xs.length - n)

theorem length_keepLast {α : Type} (n : Nat) (xs : List α) :
    (keepLast n xs).length = min n xs.length := by
  simp [keepLast]; omega

/-- Adds a diff and evicts the oldest ones beyond the capacity. -/
def push (window : Window) (diff : Update) : Window :=
  { window with diffs := keepLast window.capacity (window.diffs ++ [diff]) }

/-- No diff is remembered. -/
def isEmpty (window : Window) : Bool :=
  window.diffs.isEmpty

@[simp] theorem capacity_push (window : Window) (diff : Update) :
    (window.push diff).capacity = window.capacity := rfl

theorem length_push_le (window : Window) (diff : Update) :
    (window.push diff).diffs.length ≤ window.capacity := by
  simp only [push, length_keepLast]; omega

end Window

end MarketDepth
