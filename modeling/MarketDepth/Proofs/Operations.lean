/-
**Books under any operations.**

Two tasks write to a book without asking each other: the worker of the instrument applies diffs and
rebuilds the book from snapshots, and the emitter notes trades.  They can do so because a book has
two halves.  Levels and id are its *depth*, and only diffs and snapshots touch them; the figures on
trades are changed by trades alone.  So whatever the operations and however they are mixed, each
half ends as if the other operations had not been there.

Main definitions:

* `MarketDepth.Book.Operation`, `MarketDepth.Book.performAll` — what can be done to a book;
* `MarketDepth.Book.withDepthOf` — the trade figures of one book with the depth of another;
* `MarketDepth.Book.executions`, `MarketDepth.Book.withoutTrades` — the two kinds of operations;
* `MarketDepth.Book.Sound` — both ladders are sound.

Main results:

* `MarketDepth.Book.Sound.performAll` — operations keep a book sound;
* `MarketDepth.Book.performAll_withDepthOf` — **each half goes its own way**.
-/

import MarketDepth.Book
import MarketDepth.Proofs.Ladder

set_option relaxedAutoImplicit false
set_option autoImplicit false

namespace MarketDepth

namespace Book

/-! ### Operations -/

/-- **What can be done to a book.** -/
inductive Operation where
  /-- A diff is applied. -/
  | applyDiff (diff : Update)
  /-- The book is rebuilt from a snapshot, with diffs to replay. -/
  | restore (snapshot : Update) (diffs : List Update)
  /-- A trade is noted. -/
  | applyTrade (execution : Execution)
  deriving DecidableEq

/-- The trade of an operation, if it is one. -/
def Operation.execution? : Operation → Option Execution
  | applyTrade e => some e
  | _ => none

/-- The book after an operation. -/
def perform (book : Book) : Operation → Book
  | .applyDiff d => book.applyDiff d
  | .restore s ds => book.restore s ds
  | .applyTrade e => book.applyTrade e

/-- **The book after operations.** -/
def performAll (book : Book) (ops : List Operation) : Book :=
  ops.foldl perform book

/-- The trades among operations. -/
def executions (ops : List Operation) : List Execution :=
  ops.filterMap Operation.execution?

/-- The operations that are not trades. -/
def withoutTrades (ops : List Operation) : List Operation :=
  ops.filter (·.execution?.isNone)

theorem performAll_cons (book : Book) (op : Operation) (ops : List Operation) :
    book.performAll (op :: ops) = (book.perform op).performAll ops := rfl

/-! ### Sound books -/

/-- Both ladders are sound: strictly ordered, without empty levels. -/
structure Sound (book : Book) : Prop where
  bids : book.bids.Sound
  asks : book.asks.Sound

theorem sound_empty (instrument : String) : (empty instrument).Sound where
  bids := Ladder.sound_empty
  asks := Ladder.sound_empty

/-- Whatever a book held, the levels of a snapshot make it sound. -/
theorem sound_replaceLevels (book : Book) (s : Update) : (book.replaceLevels s).Sound where
  bids := Ladder.sound_ofLevels s.bids
  asks := Ladder.sound_ofLevels s.asks

theorem Sound.applyDiff {book : Book} (h : book.Sound) (d : Update) : (book.applyDiff d).Sound where
  bids := h.bids.setAll d.bids
  asks := h.asks.setAll d.asks

theorem Sound.foldl_applyDiff {book : Book} (h : book.Sound) (ds : List Update) :
    (ds.foldl Book.applyDiff book).Sound :=
  List.foldlRecOn ds Book.applyDiff h fun _ hb d _ => hb.applyDiff d

theorem Sound.perform {book : Book} (h : book.Sound) (op : Operation) : (book.perform op).Sound := by
  cases op with
  | applyDiff d => exact h.applyDiff d
  | restore s ds => exact (sound_replaceLevels book s).foldl_applyDiff _
  | applyTrade e => exact ⟨h.bids, h.asks⟩

/-- **Operations keep a book sound.** -/
theorem Sound.performAll {book : Book} (h : book.Sound) (ops : List Operation) :
    (book.performAll ops).Sound :=
  List.foldlRecOn ops Book.perform h fun _ hb op _ => hb.perform op

/-! ### The two halves of a book -/

/-- Instrument and trade figures of `book`, levels and id of `other`. -/
def withDepthOf (book other : Book) : Book :=
  { book with bids := other.bids, asks := other.asks, uid := other.uid }

@[simp] theorem withDepthOf_self (book : Book) : book.withDepthOf book = book := rfl

@[simp] theorem withDepthOf_withDepthOf (a b c : Book) :
    a.withDepthOf (b.withDepthOf c) = a.withDepthOf c := rfl

/-- A snapshot replaces the depth. -/
theorem replaceLevels_eq (book : Book) (s : Update) :
    book.replaceLevels s = book.withDepthOf (ofSnapshot s) := rfl

/-- A diff acts on the depth. -/
theorem applyDiff_withDepthOf (book other : Book) (d : Update) :
    (book.withDepthOf other).applyDiff d = book.withDepthOf (other.applyDiff d) := rfl

/-- A trade acts on the trade figures. -/
theorem applyTrade_withDepthOf (book other : Book) (e : Execution) :
    (book.withDepthOf other).applyTrade e = (book.applyTrade e).withDepthOf other := rfl

theorem foldl_applyDiff_withDepthOf (book other : Book) (ds : List Update) :
    ds.foldl applyDiff (book.withDepthOf other) = book.withDepthOf (ds.foldl applyDiff other) := by
  induction ds generalizing other with
  | nil => rfl
  | cons d ds ih => rw [List.foldl_cons, List.foldl_cons, applyDiff_withDepthOf, ih]

/-- A snapshot with its replay acts on the depth. -/
theorem restore_withDepthOf (book other : Book) (s : Update) (ds : List Update) :
    (book.withDepthOf other).restore s ds = book.withDepthOf (other.restore s ds) :=
  foldl_applyDiff_withDepthOf book (other.replaceLevels s) _

/-- A trade acts on the one half, every other operation on the other. -/
theorem perform_withDepthOf (book other : Book) (op : Operation) :
    (book.withDepthOf other).perform op =
      match op.execution? with
      | some e => (book.applyTrade e).withDepthOf other
      | none => book.withDepthOf (other.perform op) := by
  cases op with
  | applyDiff d => exact applyDiff_withDepthOf book other d
  | restore s ds => exact restore_withDepthOf book other s ds
  | applyTrade e => exact applyTrade_withDepthOf book other e

/-- **Each half goes its own way:** the trade figures by the trades, the depth by the rest. -/
theorem performAll_withDepthOf (book other : Book) (ops : List Operation) :
    (book.withDepthOf other).performAll ops =
      ((executions ops).foldl applyTrade book).withDepthOf
        (other.performAll (withoutTrades ops)) := by
  induction ops generalizing book other with
  | nil => rfl
  | cons op ops ih =>
      rw [performAll_cons, perform_withDepthOf]
      cases hop : op.execution? with
      | some e =>
          have hexecutions : executions (op :: ops) = e :: executions ops :=
            List.filterMap_cons_some hop
          have hrest : withoutTrades (op :: ops) = withoutTrades ops := by
            simp [withoutTrades, hop]
          rw [hexecutions, hrest, List.foldl_cons]
          exact ih (book.applyTrade e) other
      | none =>
          have hexecutions : executions (op :: ops) = executions ops :=
            List.filterMap_cons_none hop
          have hrest : withoutTrades (op :: ops) = op :: withoutTrades ops := by
            simp [withoutTrades, hop]
          rw [hexecutions, hrest, performAll_cons]
          exact ih book (other.perform op)

theorem performAll_eq (book : Book) (ops : List Operation) :
    book.performAll ops =
      ((executions ops).foldl applyTrade book).withDepthOf
        (book.performAll (withoutTrades ops)) :=
  performAll_withDepthOf book book ops

end Book

end MarketDepth
