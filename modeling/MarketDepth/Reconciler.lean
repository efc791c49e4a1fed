/-
**Keeping a book true.**

A reconciler pairs a book with the window of the diffs that it has applied to it.  A diff that is
not newer than the book is skipped.  A snapshot, however old, rebuilds the book, and the diffs of
the window that are newer than the snapshot are replayed over it; the window stays as it is, so a
later snapshot finds them again.

Main definitions:

* `MarketDepth.Reconciler` — book and window;
* `MarketDepth.Reconciler.applyDiff?` — a fresh diff, or `none` for a stale one;
* `MarketDepth.Reconciler.restore` — a snapshot;
* `MarketDepth.Reconciler.handle` — **one message**.
-/

import MarketDepth.Book
import MarketDepth.Window

set_option relaxedAutoImplicit false
set_option autoImplicit false

namespace MarketDepth

/-- A book and the window of the diffs applied to it. -/
structure Reconciler where
  book : Book
  window : Window
  deriving DecidableEq, Inhabited

namespace Reconciler

/-- A book whose window is still empty. -/
def start (book : Book) (windowSize : Nat) : Reconciler :=
  { book, window := .empty windowSize }

/-- The diff brings nothing new: its id is not beyond the book's. -/
def isStale (r : Reconciler) (diff : Update) : Bool :=
  diff.updateId ≤ r.book.uid

/-- Applies a diff and remembers it, unless it is stale. -/
def applyDiff? (r : Reconciler) (diff : Update) : Option Reconciler :=
  if r.isStale diff then none
  else some { book := r.book.applyDiff diff, window := r.window.push diff }

/-- Rebuilds the book from a snapshot and the window. -/
def restore (r : Reconciler) (snapshot : Update) : Reconciler :=
  { r with book := r.book.restore snapshot r.window.diffs }

/-- **One message.**  Trades are not its business. -/
def handle (r : Reconciler) : Message → Reconciler
  | .diff d => (r.applyDiff? d).getD r
  | .snapshot s => r.restore s
  | .trade _ => r

theorem isStale_eq_true_iff {r : Reconciler} {d : Update} :
    r.isStale d = true ↔ d.updateId ≤ r.book.uid := by
  simp [isStale]

theorem isStale_eq_false_iff {r : Reconciler} {d : Update} :
    r.isStale d = false ↔ r.book.uid < d.updateId := by
  simp [isStale]

theorem handle_diff_of_stale {r : Reconciler} {d : Update} (h : r.isStale d) :
    r.handle (.diff d) = r := by
  simp [handle, applyDiff?, h]

theorem handle_diff_of_fresh {r : Reconciler} {d : Update} (h : r.isStale d = false) :
    r.handle (.diff d) = { book := r.book.applyDiff d, window := r.window.push d } := by
  simp [handle, applyDiff?, h]

@[simp] theorem handle_snapshot (r : Reconciler) (s : Update) :
    r.handle (.snapshot s) = r.restore s := rfl

@[simp] theorem handle_trade (r : Reconciler) (t : Trade) : r.handle (.trade t) = r := rfl

end Reconciler

end MarketDepth
