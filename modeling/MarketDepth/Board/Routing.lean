/-
**Steps that take one message from a global stream.**

The two routers pass diffs and snapshots on to the queue of their instrument, the emitter applies
trades to the book at once.  A diff that is not newer than the book as it stands is turned away
before it is queued; that is only a shortcut, since the worker looks again.  A message that finds
the queue full is lost, and its loss asks for a new snapshot: once for any number of lost diffs,
and again for each lost snapshot.

Main definitions:

* `MarketDepth.Offer`, `MarketDepth.Board.offer` — **a message is offered to a queue**;
* `MarketDepth.Board.routeDiff`, `MarketDepth.Board.routeSnapshot`,
  `MarketDepth.Board.emitTrade` — the steps.

Main results:

* `MarketDepth.Board.queued_offer_le`, `queued_routeDiff_le`, `queued_routeSnapshot_le`,
  `queued_emitTrade` — a step adds at most one waiting message.
-/

import MarketDepth.Board

set_option relaxedAutoImplicit false
set_option autoImplicit false

namespace MarketDepth

/-- What became of a message offered to a queue. -/
inductive Offer where
  /-- No such instrument is registered. -/
  | unknown
  /-- Its id is not beyond the book's. -/
  | stale
  /-- It waits for the worker. -/
  | queued
  /-- The queue was full, and the message is lost. -/
  | overflow
  /-- The worker is dead. -/
  | closed
  deriving DecidableEq, Inhabited

namespace Board

/-! ### Offering a message to a queue -/

/-- Loses a message to the full queue of `r`. -/
def overflow (b : Board) (r : Registration) (m : Message) : Board :=
  let b := { b with totals.queueOverflows := b.totals.queueOverflows + 1 }
  let b := b.setRegistration m.instrument { r with resyncPending := true }
  if r.resyncPending = false then b.requestSnapshot m.instrument (.queueFull m.instrument)
  else if m.kind = .snapshot then b.requestSnapshot m.instrument (.snapshotLost m.instrument)
  else b

/-- **Offers a message to the queue of its instrument.**  With `checkAge`, one that is not newer
than the book is turned away first. -/
def offer (b : Board) (m : Message) (checkAge : Bool) : Offer × Board :=
  match b.find? m.instrument with
  | none => (.unknown, b)
  | some r =>
      if checkAge && m.updateId?.any (· ≤ r.book.uid) then (.stale, b)
      else if r.live = false then (.closed, b)
      else if r.inbox.length < b.config.queueCapacity then
        (.queued, b.setRegistration m.instrument { r with inbox := r.inbox ++ [m] })
      else (.overflow, b.overflow r m)

/-! ### The steps -/

/-- The diff router's report, if it is due. -/
def reportDiffs (b : Board) (now : Nat) : Board :=
  match b.diffTally.takeReport b.config.statsInterval now with
  | (none, diffTally) => { b with diffTally }
  | (some (accepted, rejected), diffTally) =>
      { b with diffTally }.record [.diffReport accepted rejected]

/-- The trade emitter's report, if it is due. -/
def reportTrades (b : Board) (now : Nat) : Board :=
  match b.tradeTally.takeReport b.config.statsInterval now with
  | (none, tradeTally) => { b with tradeTally }
  | (some (accepted, rejected), tradeTally) =>
      { b with tradeTally }.record [.tradeReport accepted rejected]

/-- Counts an accepted diff. -/
def acceptDiff (b : Board) (now : Nat) : Board :=
  { b with
    diffTally := b.diffTally.accept
    totals.diffsAccepted := b.totals.diffsAccepted + 1 }.reportDiffs now

/-- Counts a rejected diff. -/
def rejectDiff (b : Board) (now : Nat) : Board :=
  { b with
    diffTally := b.diffTally.reject
    totals.diffsRejected := b.totals.diffsRejected + 1 }.reportDiffs now

/-- **The diff router handles one message.**  A fault leaves the board as it was. -/
def routeDiff (b : Board) (now : Nat) (m : Message) : Except Fault Offer × Board :=
  if m.kind ≠ .diff then (.error (.unexpectedMessage m.kind "diff"), b)
  else
    match b.offer m true with
    | (.closed, _) => (.error (.queueClosed m.instrument), b)
    | (.queued, b) => (.ok .queued, b.acceptDiff now)
    | (outcome, b) => (.ok outcome, b.rejectDiff now)

/-- **The snapshot router handles one message.**  A snapshot may be of any age. -/
def routeSnapshot (b : Board) (m : Message) : Except Fault Offer × Board :=
  if m.kind ≠ .snapshot then (.error (.unexpectedMessage m.kind "snapshot"), b)
  else
    match b.offer m false with
    | (.closed, _) => (.error (.queueClosed m.instrument), b)
    | (.queued, b) =>
        (.ok .queued, { b with totals.snapshotsRouted := b.totals.snapshotsRouted + 1 })
    | (.unknown, b) =>
        (.ok .unknown, { b with totals.snapshotsDropped := b.totals.snapshotsDropped + 1 })
    | (outcome, b) => (.ok outcome, b)

/-- **The trade emitter handles one message.**  A trade reaches the book even when the worker is
dead. -/
def emitTrade (b : Board) (now : Nat) : Message → Option Fault × Board
  | .trade t =>
      match b.find? t.instrument with
      | some r =>
          let b := b.setRegistration t.instrument (r.applyTrade t.execution)
          (none, { b with
            tradeTally := b.tradeTally.accept
            totals.tradesAccepted := b.totals.tradesAccepted + 1 }.reportTrades now)
      | none =>
          (none, { b with
            tradeTally := b.tradeTally.reject
            totals.tradesRejected := b.totals.tradesRejected + 1 }.reportTrades now)
  | m => (some (.unexpectedMessage m.kind "trade"), b)

/-! ### What the steps do to the registry -/

@[simp] theorem registry_reportDiffs (b : Board) (now : Nat) :
    (b.reportDiffs now).registry = b.registry := by
  unfold reportDiffs; split <;> rfl

@[simp] theorem registry_reportTrades (b : Board) (now : Nat) :
    (b.reportTrades now).registry = b.registry := by
  unfold reportTrades; split <;> rfl

@[simp] theorem registry_acceptDiff (b : Board) (now : Nat) :
    (b.acceptDiff now).registry = b.registry := by simp [acceptDiff]

@[simp] theorem registry_rejectDiff (b : Board) (now : Nat) :
    (b.rejectDiff now).registry = b.registry := by simp [rejectDiff]

theorem queued_congr {b b' : Board} (h : b'.registry = b.registry) : b'.queued = b.queued := by
  simp [queued, h]

theorem queued_overflow {b : Board} {r : Registration} {m : Message}
    (h : b.find? m.instrument = some r) : (b.overflow r m).queued = b.queued := by
  have same : ∀ b' : Board, b'.registry = b.registry →
      (b'.setRegistration m.instrument { r with resyncPending := true }).queued = b.queued := by
    intro b' hb'
    have := queued_setRegistration { r with resyncPending := true }
      (b := b') (by simpa [find?, hb'] using h)
    rw [queued_congr hb'] at this
    simpa using this
  unfold overflow
  split
  · exact same _ rfl
  · split
    · exact same _ rfl
    · exact same _ rfl

/-- Offering a message adds at most that message to the queues. -/
theorem queued_offer_le (b : Board) (m : Message) (checkAge : Bool) :
    (b.offer m checkAge).2.queued ≤ b.queued + 1 := by
  unfold offer
  split
  · exact Nat.le_succ _
  next r h =>
    split
    · exact Nat.le_succ _
    · split
      · exact Nat.le_succ _
      · split
        · have := queued_setRegistration { r with inbox := r.inbox ++ [m] } h
          simp only [List.length_append, List.length_singleton] at this
          show (b.setRegistration _ _).queued ≤ _
          omega
        · exact Nat.le_succ_of_le (Nat.le_of_eq (queued_overflow h))

theorem queued_routeDiff_le (b : Board) (now : Nat) (m : Message) :
    (b.routeDiff now m).2.queued ≤ b.queued + 1 := by
  have bound := queued_offer_le b m true
  unfold routeDiff
  split
  · exact Nat.le_succ _
  · split
    · exact Nat.le_succ _
    next b' h => rw [h] at bound; rw [queued_congr (registry_acceptDiff b' now)]; exact bound
    next b' _ _ h => rw [h] at bound; rw [queued_congr (registry_rejectDiff b' now)]; exact bound

theorem queued_routeSnapshot_le (b : Board) (m : Message) :
    (b.routeSnapshot m).2.queued ≤ b.queued + 1 := by
  have bound := queued_offer_le b m false
  unfold routeSnapshot
  split
  · exact Nat.le_succ _
  · split
    · exact Nat.le_succ _
    next h => rw [h] at bound; exact bound
    next h => rw [h] at bound; exact bound
    next h => rw [h] at bound; exact bound

/-- Trades do not wait. -/
theorem queued_emitTrade (b : Board) (now : Nat) (m : Message) :
    (b.emitTrade now m).2.queued = b.queued := by
  cases m with
  | trade t =>
      simp only [emitTrade]
      split
      next r h =>
        rw [queued_congr (registry_reportTrades _ now)]
        have := queued_setRegistration (r.applyTrade t.execution) h
        exact Nat.add_right_cancel this
      · exact queued_congr (registry_reportTrades _ now)
  | diff _ => rfl
  | snapshot _ => rfl

end Board

end MarketDepth
