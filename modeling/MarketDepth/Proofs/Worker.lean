/-
**What a worker remembers.**

A worker handles its messages one after the other, and what it does to book and window is a matter
of the messages alone, not of the times at which they are handled.  Along a run, the diffs that it
applies have increasing ids, whatever snapshots come in between: the window always ends with the
diff applied last, so that no snapshot, however old, takes the book back behind it.

Main definitions:

* `MarketDepth.Reconciler.handleAll`, `MarketDepth.Reconciler.applied` — a run of messages, and the
  diffs that it applies;
* `MarketDepth.Registration.after`, `MarketDepth.Registration.run` — **the worker's run**;
* `MarketDepth.Reconciler.Remembers` — the invariant that ties book and window to the diffs
  applied so far.

Main results:

* `MarketDepth.Registration.reconciler_run` — the worker does to book and window what its messages
  say;
* `MarketDepth.Reconciler.Remembers.handle`, `MarketDepth.Registration.remembers_run` — **the
  invariant holds after every message**;
* `MarketDepth.Registration.invariant_of_run` — ids, window and book of a worker after a run.
-/

import MarketDepth.Registration
import MarketDepth.Proofs.Restore

set_option relaxedAutoImplicit false
set_option autoImplicit false

namespace MarketDepth

/-! ### Keeping the last elements -/

namespace Window

variable {α : Type}

theorem keepLast_suffix (n : Nat) (xs : List α) : keepLast n xs <:+ xs :=
  List.drop_suffix _ _

theorem keepLast_nil (n : Nat) : keepLast n ([] : List α) = [] := by
  simp [keepLast]

/-- What has been dropped once would not be kept later. -/
theorem keepLast_concat (n : Nat) (xs : List α) (x : α) :
    keepLast n (keepLast n xs ++ [x]) = keepLast n (xs ++ [x]) := by
  have hlen := length_keepLast n (keepLast n xs ++ [x])
  have hlen' := length_keepLast n (xs ++ [x])
  have hkeep := length_keepLast n xs
  have hkept : keepLast n xs ++ [x] <:+ xs ++ [x] :=
    (List.suffix_append_inj_of_length_eq rfl).2 ⟨keepLast_suffix n xs, rfl⟩
  have hsuffix : keepLast n (keepLast n xs ++ [x]) <:+ xs ++ [x] :=
    (keepLast_suffix n _).trans hkept
  simp only [List.length_append, List.length_singleton] at hlen hlen'
  exact (List.suffix_of_suffix_length_le hsuffix (keepLast_suffix n _) (by omega)).eq_of_length
    (by omega)

theorem getLast?_keepLast {n : Nat} (hn : 1 ≤ n) (xs : List α) :
    (keepLast n xs).getLast? = xs.getLast? := by
  rcases List.eq_nil_or_concat xs with rfl | ⟨init, x, rfl⟩
  · rw [keepLast_nil]
  · have hdrop : (init ++ [x]).length - n ≤ init.length := by
      simp only [List.length_append, List.length_singleton]
      omega
    rw [List.concat_eq_append, keepLast, List.drop_append_of_le_length hdrop,
      List.getLast?_concat, List.getLast?_concat]

end Window

/-! ### Runs -/

namespace Reconciler

/-- A run of messages. -/
def handleAll (r : Reconciler) (ms : List Message) : Reconciler :=
  ms.foldl handle r

/-- The diff that handling a message applies, if it does; a replay is not counted. -/
def appliedBy? (r : Reconciler) : Message → Option Update
  | .diff d => (r.applyDiff? d).map fun _ => d
  | _ => none

/-- **The diffs that a run of messages applies,** in order. -/
def applied (r : Reconciler) : List Message → List Update
  | [] => []
  | m :: ms => (r.appliedBy? m).toList ++ (r.handle m).applied ms

theorem appliedBy?_diff_of_stale {r : Reconciler} {d : Update} (h : r.isStale d) :
    r.appliedBy? (.diff d) = none := by
  simp [appliedBy?, applyDiff?, h]

theorem appliedBy?_diff_of_fresh {r : Reconciler} {d : Update} (h : r.isStale d = false) :
    r.appliedBy? (.diff d) = some d := by
  simp [appliedBy?, applyDiff?, h]

@[simp] theorem handleAll_nil (r : Reconciler) : r.handleAll [] = r := rfl

theorem handleAll_cons (r : Reconciler) (m : Message) (ms : List Message) :
    r.handleAll (m :: ms) = (r.handle m).handleAll ms := rfl

theorem handleAll_append (r : Reconciler) (ms ms' : List Message) :
    r.handleAll (ms ++ ms') = (r.handleAll ms).handleAll ms' :=
  List.foldl_append

theorem capacity_handle (r : Reconciler) (m : Message) :
    (r.handle m).window.capacity = r.window.capacity := by
  cases m with
  | diff d =>
      cases hd : r.isStale d with
      | true => rw [handle_diff_of_stale hd]
      | false => rw [handle_diff_of_fresh hd, Window.capacity_push]
  | snapshot s => rfl
  | trade t => rfl

theorem capacity_handleAll (r : Reconciler) (ms : List Message) :
    (r.handleAll ms).window.capacity = r.window.capacity := by
  induction ms generalizing r with
  | nil => rfl
  | cons m ms ih => rw [handleAll_cons, ih, capacity_handle]

end Reconciler

namespace Registration

/-- The registration when its worker is done with a message that came up at a time.  A message
that it refuses changes nothing. -/
def after (r : Registration) (statsInterval : Nat) (arrival : Nat × Message) : Registration :=
  match r.handle statsInterval arrival.1 arrival.2 with
  | .ok (r, _) => r
  | .error _ => r

/-- **The worker's run** through messages, each with the time at which it is handled. -/
def run (r : Registration) (statsInterval : Nat) (arrivals : List (Nat × Message)) :
    Registration :=
  arrivals.foldl (·.after statsInterval ·) r

theorem run_concat (r : Registration) (statsInterval : Nat) (arrivals : List (Nat × Message))
    (arrival : Nat × Message) :
    r.run statsInterval (arrivals ++ [arrival]) =
      (r.run statsInterval arrivals).after statsInterval arrival :=
  List.foldl_append

theorem reconciler_handleDiff (r : Registration) (statsInterval now : Nat) (d : Update) :
    (r.handleDiff statsInterval now d).1.reconciler = r.reconciler.handle (.diff d) := by
  change _ = (r.reconciler.applyDiff? d).getD r.reconciler
  unfold handleDiff
  split
  next h =>
    rw [h]
    rfl
  next h =>
    rw [h]
    split
    next => rfl
    next => rfl

/-- Book and window after a message do not depend on the time. -/
theorem reconciler_after (r : Registration) (statsInterval : Nat) (arrival : Nat × Message) :
    (r.after statsInterval arrival).reconciler = r.reconciler.handle arrival.2 := by
  obtain ⟨now, m⟩ := arrival
  cases m with
  | diff d => exact reconciler_handleDiff r statsInterval now d
  | snapshot s => rfl
  | trade t => rfl

/-- **The worker does to book and window what its messages say.** -/
theorem reconciler_run (r : Registration) (statsInterval : Nat) (arrivals : List (Nat × Message)) :
    (r.run statsInterval arrivals).reconciler = r.reconciler.handleAll (arrivals.map (·.2)) := by
  induction arrivals generalizing r with
  | nil => rfl
  | cons a as ih =>
      rw [List.map_cons, Reconciler.handleAll_cons, ← reconciler_after r statsInterval a]
      exact ih (r.after statsInterval a)

theorem book_run (r : Registration) (statsInterval : Nat) (arrivals : List (Nat × Message)) :
    (r.run statsInterval arrivals).book = (r.reconciler.handleAll (arrivals.map (·.2))).book := by
  rw [book, reconciler_run]

end Registration

/-! ### The invariant -/

namespace Reconciler

/-- The window has room, it holds the last ones of the diffs applied, their ids have increased, and
the book has got as far as all of them. -/
structure Remembers (r : Reconciler) (diffs : List Update) : Prop where
  room : 1 ≤ r.window.capacity
  window : r.window.diffs = Window.keepLast r.window.capacity diffs
  ascending : Ascending diffs
  le_uid : ∀ d ∈ diffs, d.updateId ≤ r.book.uid

theorem remembers_start (book : Book) {windowSize : Nat} (h : 1 ≤ windowSize) :
    (start book windowSize).Remembers [] where
  room := h
  window := (Window.keepLast_nil windowSize).symm
  ascending := .nil
  le_uid := fun _ hd => absurd hd List.not_mem_nil

namespace Remembers

variable {r : Reconciler} {diffs : List Update}

theorem window_suffix (h : r.Remembers diffs) : r.window.diffs <:+ diffs := by
  rw [h.window]
  exact Window.keepLast_suffix _ _

theorem window_ascending (h : r.Remembers diffs) : Ascending r.window.diffs :=
  h.ascending.sublist h.window_suffix.sublist

theorem getLast?_window (h : r.Remembers diffs) : r.window.diffs.getLast? = diffs.getLast? := by
  rw [h.window]
  exact Window.getLast?_keepLast h.room diffs

/-- Nothing applied is beyond an id that the book is not beyond. -/
theorem filter_eq_nil (h : r.Remembers diffs) {uid : UInt64} (huid : r.book.uid ≤ uid) :
    (diffs.filter fun d => uid < d.updateId) = [] := by
  refine List.filter_eq_nil_iff.2 ?_
  intro d hd
  have hle := UInt64.le_trans (h.le_uid d hd) huid
  simpa using hle

/-- Of the diffs beyond an id the window holds all, if it has room for as many. -/
theorem filter_window (h : r.Remembers diffs) {uid : UInt64}
    (hlen : (diffs.filter fun d => uid < d.updateId).length ≤ r.window.capacity) :
    (r.window.diffs.filter fun d => uid < d.updateId) =
      diffs.filter fun d => uid < d.updateId := by
  have hsuffix : (diffs.filter fun d => uid < d.updateId) <:+ r.window.diffs := by
    refine List.suffix_of_suffix_length_le (h.ascending.filter_suffix uid) h.window_suffix ?_
    rw [h.window, Window.length_keepLast]
    exact Nat.le_min.2 ⟨hlen, List.length_filter_le _ _⟩
  have hle := hsuffix.sublist.filter fun d => decide (uid < d.updateId)
  rw [List.filter_filter] at hle
  simp only [Bool.and_self] at hle
  exact (h.window_suffix.sublist.filter _).eq_of_length_le hle.length_le

/-- A snapshot takes the book to its own id, or back to the diff applied last. -/
theorem uid_restore (h : r.Remembers diffs) (s : Update) :
    (r.restore s).book.uid =
      (diffs.getLast?.map fun d => max s.updateId d.updateId).getD s.updateId := by
  rw [restore, Book.uid_restore, h.window_ascending.latestId_eq, h.getLast?_window]

/-- A fresh diff is remembered as the last one. -/
theorem handle_fresh (h : r.Remembers diffs) {d : Update} (hd : r.isStale d = false) :
    (r.handle (.diff d)).Remembers (diffs ++ [d]) := by
  have hlt : r.book.uid < d.updateId := isStale_eq_false_iff.1 hd
  rw [handle_diff_of_fresh hd]
  constructor
  · exact h.room
  · change Window.keepLast _ (r.window.diffs ++ [d]) = _
    rw [h.window]
    exact Window.keepLast_concat _ _ _
  · exact h.ascending.concat fun e he => UInt64.lt_of_le_of_lt (h.le_uid e he) hlt
  · intro e he
    rcases List.mem_append.1 he with he | he
    · exact UInt64.le_trans (h.le_uid e he) (UInt64.le_of_lt hlt)
    · rw [List.mem_singleton.1 he]
      exact UInt64.le_rfl

/-- A snapshot leaves what is remembered as it is, and the book is not behind it. -/
theorem restore (h : r.Remembers diffs) (s : Update) : (r.restore s).Remembers diffs where
  room := h.room
  window := h.window
  ascending := h.ascending
  le_uid := by
    -- the bound is the id of the last diff, which the window still holds
    rw [h.uid_restore s, ← h.ascending.latestId_eq]
    exact fun d hd => updateId_le_latestId hd

/-- **One message keeps the invariant.** -/
theorem handle (h : r.Remembers diffs) (m : Message) :
    (r.handle m).Remembers (diffs ++ (r.appliedBy? m).toList) := by
  cases m with
  | diff d =>
      cases hd : r.isStale d with
      | true =>
          rw [handle_diff_of_stale hd, appliedBy?_diff_of_stale hd, Option.toList_none,
            List.append_nil]
          exact h
      | false =>
          rw [appliedBy?_diff_of_fresh hd]
          exact h.handle_fresh hd
  | snapshot s =>
      rw [show r.appliedBy? (.snapshot s) = none from rfl, Option.toList_none, List.append_nil]
      exact h.restore s
  | trade t =>
      rw [show r.appliedBy? (.trade t) = none from rfl, Option.toList_none, List.append_nil]
      exact h

/-- A run of messages keeps the invariant. -/
theorem handleAll (h : r.Remembers diffs) (ms : List Message) :
    (r.handleAll ms).Remembers (diffs ++ r.applied ms) := by
  induction ms generalizing r diffs with
  | nil =>
      rw [applied, List.append_nil]
      exact h
  | cons m ms ih =>
      rw [applied, ← List.append_assoc]
      exact ih (h.handle m)

end Remembers

end Reconciler

namespace Registration

/-- **The invariant holds after every message of a worker.** -/
theorem remembers_run {w : Registration} {book : Book} {windowSize : Nat}
    (start : w.reconciler = .start book windowSize) (room : 1 ≤ windowSize) (statsInterval : Nat)
    (arrivals : List (Nat × Message)) :
    (w.run statsInterval arrivals).reconciler.Remembers
      (w.reconciler.applied (arrivals.map (·.2))) := by
  rw [reconciler_run, start]
  exact (Reconciler.remembers_start book room).handleAll _

theorem capacity_run {w : Registration} {book : Book} {windowSize : Nat}
    (start : w.reconciler = .start book windowSize) (statsInterval : Nat)
    (arrivals : List (Nat × Message)) :
    (w.run statsInterval arrivals).reconciler.window.capacity = windowSize := by
  rw [reconciler_run, Reconciler.capacity_handleAll, start]
  rfl

/-- **What a worker keeps through every run,** from whatever book it starts with an empty window.
The diffs that it applies have increasing ids, the window is the end of them, and the book is never
behind the last one; so none of them is applied again, whatever comes later, and a snapshot takes
the book to its own id or to that of the diff applied last. -/
theorem invariant_of_run {w : Registration} {book : Book} {windowSize : Nat}
    (start : w.reconciler = .start book windowSize) (room : 1 ≤ windowSize) (statsInterval : Nat)
    (arrivals : List (Nat × Message)) :
    let applied := w.reconciler.applied (arrivals.map (·.2))
    let w' := w.run statsInterval arrivals
    let window := w'.reconciler.window.diffs
    Ascending applied ∧
    (window <:+ applied ∧ window.length = min windowSize applied.length) ∧
    (∀ d ∈ applied, d.updateId ≤ w'.book.uid) ∧
    (∀ d ∈ applied, ∀ later, d ∉ w'.reconciler.applied later) ∧
    ∀ now s, (w'.after statsInterval (now, .snapshot s)).book.uid =
      (window.getLast?.map fun d => max s.updateId d.updateId).getD s.updateId := by
  intro applied w' window
  have hr : w'.reconciler.Remembers applied := remembers_run start room statsInterval arrivals
  refine ⟨hr.ascending, ⟨hr.window_suffix, ?_⟩, hr.le_uid, ?_, ?_⟩
  · change w'.reconciler.window.diffs.length = _
    rw [hr.window, Window.length_keepLast, capacity_run start]
  · intro d hd later hlater
    -- what is applied later comes behind `d` in one ascending list
    have hall : Ascending (applied ++ w'.reconciler.applied later) := (hr.handleAll later).ascending
    exact UInt64.lt_irrefl _ ((List.pairwise_append.1 hall).2.2 d hd d hlater)
  · intro now s
    have hafter : (w'.after statsInterval (now, .snapshot s)).book.uid =
        (w'.reconciler.restore s).book.uid := rfl
    rw [hafter, hr.uid_restore s, ← hr.getLast?_window]

/-- Two snapshots from before the start and a repeated diff do not bring the diff 102 back. -/
theorem invariant_of_run_past_old_snapshots :
    let diff (id : UInt64) : Message := .diff { instrument := "A", updateId := id, timestamp := 0 }
    let old : Update := { instrument := "A", updateId := 9, timestamp := 0, bids := [⟨5, 1⟩] }
    let book : Book := { instrument := "A", uid := 100 }
    let w : Registration := .start 0 "A" book 2 0 true
    let arrivals : List (Nat × Message) := [(0, diff 7), (1, diff 101), (2, .snapshot old),
      (3, diff 101), (4, diff 102), (5, diff 104), (6, .snapshot old), (7, diff 102)]
    (w.reconciler = .start book 2 ∧ 1 ≤ 2) ∧
    Ascending (w.reconciler.applied (arrivals.map (·.2))) ∧
    (w.reconciler.applied (arrivals.map (·.2))).map (·.updateId) = [101, 102, 104] ∧
    ((w.run 60000 arrivals).after 60000 (8, .snapshot old)).book.uid = 104 := by
  intro diff old book w arrivals
  have hstart : w.reconciler = .start book 2 := rfl
  have hroom : 1 ≤ 2 := by decide
  obtain ⟨hascending, -, -, -, hsnapshot⟩ := invariant_of_run hstart hroom 60000 arrivals
  have hlast : ((w.run 60000 arrivals).reconciler.window.diffs.getLast?.map
      fun d => max old.updateId d.updateId).getD old.updateId = 104 := by cbv
  refine ⟨⟨hstart, hroom⟩, hascending, ?_, (hsnapshot 8 old).trans hlast⟩
  cbv

end Registration

end MarketDepth
