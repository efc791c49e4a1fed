/-
**The moment at which a snapshot lands.**

A snapshot that is not older than the book may land before, among or after the next diffs: as long
as the window has room for all of them, the book ends up the same.  Diffs that come first are
applied at once and replayed from the window afterwards; diffs that come later pass the check of
their age against the snapshot's id.  Both ways pick the same diffs, those beyond the snapshot
whose id exceeds all ids before them.

Main definitions:

* `MarketDepth.fresh` — the diffs that a book at some id takes from a list.

Main results:

* `MarketDepth.filter_fresh` — **the fresh diffs beyond a later id are those that are fresh to
  it**;
* `MarketDepth.Reconciler.book_handleAll_diffs` — what diffs do to a book;
* `MarketDepth.Reconciler.Remembers.book_restore_handleAll` — **a snapshot may wait for diffs**;
* `MarketDepth.Registration.book_eq_of_snapshot_among_diffs` — the two runs of a worker.
-/

import MarketDepth.Proofs.Worker

set_option relaxedAutoImplicit false
set_option autoImplicit false

namespace MarketDepth

/-! ### Fresh diffs -/

/-- The diffs that a book at an id takes from a list: those whose id exceeds that of the book and
of all diffs taken before. -/
def fresh (uid : UInt64) : List Update → List Update
  | [] => []
  | d :: ds => if d.updateId ≤ uid then fresh uid ds else d :: fresh d.updateId ds

theorem fresh_cons_of_le {uid : UInt64} {d : Update} (h : d.updateId ≤ uid) (ds : List Update) :
    fresh uid (d :: ds) = fresh uid ds := by
  rw [fresh, if_pos h]

theorem fresh_cons_of_lt {uid : UInt64} {d : Update} (h : uid < d.updateId) (ds : List Update) :
    fresh uid (d :: ds) = d :: fresh d.updateId ds := by
  rw [fresh, if_neg (UInt64.not_le.2 h)]

theorem length_fresh_le (uid : UInt64) (ds : List Update) : (fresh uid ds).length ≤ ds.length := by
  induction ds generalizing uid with
  | nil => exact Nat.le_refl _
  | cons d ds ih =>
      rcases UInt64.lt_or_le uid d.updateId with h | h
      · rw [fresh_cons_of_lt h]
        exact Nat.succ_le_succ (ih d.updateId)
      · rw [fresh_cons_of_le h]
        exact Nat.le_succ_of_le (ih uid)

/-- Fresh diffs are beyond the id that they are fresh to. -/
theorem lt_of_mem_fresh {uid : UInt64} {ds : List Update} :
    ∀ d ∈ fresh uid ds, uid < d.updateId := by
  induction ds generalizing uid with
  | nil => exact fun _ hd => absurd hd List.not_mem_nil
  | cons d ds ih =>
      rcases UInt64.lt_or_le uid d.updateId with h | h
      · rw [fresh_cons_of_lt h]
        intro e he
        rcases List.mem_cons.1 he with rfl | he
        · exact h
        · exact UInt64.lt_trans h (ih e he)
      · rw [fresh_cons_of_le h]
        exact ih

/-- **The fresh diffs beyond a later id are those that are fresh to it.** -/
theorem filter_fresh {uid later : UInt64} (h : uid ≤ later) (ds : List Update) :
    (fresh uid ds).filter (fun d => later < d.updateId) = fresh later ds := by
  induction ds generalizing uid with
  | nil => rfl
  | cons d ds ih =>
      rcases UInt64.lt_or_le later d.updateId with hlater | hlater
      · -- both take `d`, and whatever is taken behind it is beyond `d` and so beyond `later`
        have hall : (fresh d.updateId ds).filter (fun e => later < e.updateId) =
            fresh d.updateId ds := by
          refine List.filter_eq_self.2 ?_
          intro e he
          exact decide_eq_true (UInt64.lt_trans hlater (lt_of_mem_fresh e he))
        rw [fresh_cons_of_lt (UInt64.lt_of_le_of_lt h hlater), fresh_cons_of_lt hlater,
          List.filter_cons, if_pos (decide_eq_true hlater), hall]
      · rw [fresh_cons_of_le hlater]
        rcases UInt64.lt_or_le uid d.updateId with huid | huid
        · have hdrop : ¬ decide (later < d.updateId) = true := by simpa using hlater
          rw [fresh_cons_of_lt huid, List.filter_cons, if_neg hdrop]
          exact ih hlater
        · rw [fresh_cons_of_le huid]
          exact ih h

/-! ### The two orders -/

namespace Reconciler

/-- Diffs change a book by those of them that are fresh. -/
theorem book_handleAll_diffs (r : Reconciler) (ds : List Update) :
    (r.handleAll (ds.map .diff)).book = (fresh r.book.uid ds).foldl Book.applyDiff r.book := by
  induction ds generalizing r with
  | nil => rfl
  | cons d ds ih =>
      rw [List.map_cons, handleAll_cons, ih]
      rcases UInt64.lt_or_le r.book.uid d.updateId with h | h
      · rw [handle_diff_of_fresh (isStale_eq_false_iff.2 h), fresh_cons_of_lt h]
        rfl
      · rw [handle_diff_of_stale (isStale_eq_true_iff.2 h), fresh_cons_of_le h]

/-- The diffs that a run of diffs applies are the fresh ones. -/
theorem applied_diffs (r : Reconciler) (ds : List Update) :
    r.applied (ds.map .diff) = fresh r.book.uid ds := by
  induction ds generalizing r with
  | nil => rfl
  | cons d ds ih =>
      rw [List.map_cons, applied, ih]
      rcases UInt64.lt_or_le r.book.uid d.updateId with h | h
      · have hd : r.isStale d = false := isStale_eq_false_iff.2 h
        rw [handle_diff_of_fresh hd, appliedBy?_diff_of_fresh hd, fresh_cons_of_lt h]
        rfl
      · have hd : r.isStale d = true := isStale_eq_true_iff.2 h
        rw [handle_diff_of_stale hd, appliedBy?_diff_of_stale hd, fresh_cons_of_le h]
        rfl

namespace Remembers

variable {r : Reconciler} {diffs : List Update}

/-- No diff of the window is beyond a snapshot that is not older than the book. -/
theorem book_restore_of_le (h : r.Remembers diffs) {s : Update} (hs : r.book.uid ≤ s.updateId) :
    (r.restore s).book = r.book.replaceLevels s := by
  have hnone := h.filter_eq_nil hs
  have hroom : (diffs.filter fun d => s.updateId < d.updateId).length ≤ r.window.capacity := by
    rw [hnone]
    exact Nat.zero_le _
  change r.book.restore s r.window.diffs = _
  rw [Book.restore_of_ascending h.window_ascending, h.filter_window hroom, hnone]
  rfl

/-- What is replayed over a snapshot, after at most as many diffs as the window has room for, is
what of these diffs would have been fresh to the snapshot. -/
theorem filter_window_handleAll (h : r.Remembers diffs) {s : Update}
    (hs : r.book.uid ≤ s.updateId) {ds : List Update} (hds : ds.length ≤ r.window.capacity) :
    ((r.handleAll (ds.map .diff)).window.diffs.filter fun d => s.updateId < d.updateId) =
      fresh s.updateId ds := by
  have hfresh : ((diffs ++ r.applied (ds.map .diff)).filter fun d => s.updateId < d.updateId) =
      fresh s.updateId ds := by
    rw [applied_diffs, List.filter_append, h.filter_eq_nil hs, filter_fresh hs, List.nil_append]
  have hroom : (fresh s.updateId ds).length ≤ (r.handleAll (ds.map .diff)).window.capacity := by
    rw [capacity_handleAll]
    exact Nat.le_trans (length_fresh_le _ _) hds
  rw [← hfresh] at hroom ⊢
  exact (h.handleAll (ds.map .diff)).filter_window hroom

/-- **A snapshot may wait for diffs,** as many as the window has room for. -/
theorem book_restore_handleAll (h : r.Remembers diffs) {s : Update}
    (hs : r.book.uid ≤ s.updateId) {ds : List Update} (hds : ds.length ≤ r.window.capacity) :
    ((r.handleAll (ds.map .diff)).restore s).book =
      ((r.restore s).handleAll (ds.map .diff)).book := by
  have hascending := (h.handleAll (ds.map .diff)).window_ascending
  calc ((r.handleAll (ds.map .diff)).restore s).book
      = (fresh s.updateId ds).foldl Book.applyDiff
          ((r.handleAll (ds.map .diff)).book.replaceLevels s) := by
        change (r.handleAll _).book.restore s (r.handleAll _).window.diffs = _
        rw [Book.restore_of_ascending hascending, h.filter_window_handleAll hs hds]
    _ = (fresh s.updateId ds).foldl Book.applyDiff (r.book.replaceLevels s) := by
        rw [book_handleAll_diffs, Book.replaceLevels_foldl_applyDiff]
    _ = ((r.restore s).handleAll (ds.map .diff)).book := by
        rw [book_handleAll_diffs, h.book_restore_of_le hs, Book.uid_replaceLevels]

end Remembers

end Reconciler

/-! ### Two runs of a worker -/

namespace Registration

/-- **The moment at which a snapshot lands does not matter.**  From whatever state a worker has
reached, a snapshot not older than the book and no more diffs than the window has room for leave
the same book, whether the snapshot comes among the diffs or before them. -/
theorem book_eq_of_snapshot_among_diffs {w : Registration} {book : Book} {windowSize : Nat}
    (start : w.reconciler = .start book windowSize) (statsInterval : Nat)
    (past : List (Nat × Message)) {s : Update}
    (hs : (w.run statsInterval past).book.uid ≤ s.updateId) {ds : List Update}
    (hds : ds.length ≤ windowSize) (k : Nat) {among before : List (Nat × Message)}
    (hamong : among.map (·.2) = (ds.take k).map .diff ++ .snapshot s :: (ds.drop k).map .diff)
    (hbefore : before.map (·.2) = .snapshot s :: ds.map .diff) :
    ((w.run statsInterval past).run statsInterval among).book =
      ((w.run statsInterval past).run statsInterval before).book := by
  rw [book_run _ _ among, book_run _ _ before, hamong, hbefore]
  let r := (w.run statsInterval past).reconciler
  change (r.handleAll _).book = (r.handleAll _).book
  rcases Nat.eq_zero_or_pos windowSize with rfl | room
  · -- without a window there are no diffs to order
    rw [List.eq_nil_of_length_eq_zero (Nat.le_zero.1 hds), List.take_nil, List.drop_nil]
    rfl
  · have hr : r.Remembers (w.reconciler.applied (past.map (·.2))) :=
      remembers_run start room statsInterval past
    have hcapacity : r.window.capacity = windowSize := capacity_run start statsInterval past
    have htake : (ds.take k).length ≤ r.window.capacity := by
      rw [hcapacity]
      exact Nat.le_trans (List.length_take_le' k ds) hds
    -- once the snapshot and the first `k` diffs are in, the two runs go on from one book
    have hmid := hr.book_restore_handleAll hs htake
    have hsplit : ds.map Message.diff = (ds.take k).map .diff ++ (ds.drop k).map .diff := by
      rw [← List.map_append, List.take_append_drop]
    rw [Reconciler.handleAll_append, Reconciler.handleAll_cons, Reconciler.handle_snapshot,
      Reconciler.book_handleAll_diffs, hmid, hsplit, Reconciler.handleAll_cons,
      Reconciler.handle_snapshot, Reconciler.handleAll_append]
    exact (Reconciler.book_handleAll_diffs _ _).symm

/-- The diff 103 takes a level from the snapshot 102, whichever of them comes first. -/
theorem book_eq_of_snapshot_behind_newer_diff :
    let diff (id price size : UInt64) : Update :=
      { instrument := "A", updateId := id, timestamp := 0, bids := [⟨price, size⟩] }
    let s : Update :=
      { instrument := "A", updateId := 102, timestamp := 0, bids := [⟨5, 1⟩, ⟨6, 1⟩] }
    let book : Book := { instrument := "A", uid := 100 }
    let w : Registration := .start 0 "A" book 2 0 true
    let past : List (Nat × Message) := [(0, .diff (diff 101 7 3))]
    let ds : List Update := [diff 103 5 0, diff 102 6 9]
    let among : List (Nat × Message) :=
      [(1, .diff (diff 103 5 0)), (2, .snapshot s), (3, .diff (diff 102 6 9))]
    let before : List (Nat × Message) :=
      [(1, .snapshot s), (1, .diff (diff 103 5 0)), (1, .diff (diff 102 6 9))]
    w.reconciler = .start book 2 ∧ (w.run 60000 past).book.uid ≤ s.updateId ∧ ds.length ≤ 2 ∧
    among.map (·.2) = (ds.take 1).map .diff ++ .snapshot s :: (ds.drop 1).map .diff ∧
    before.map (·.2) = .snapshot s :: ds.map .diff ∧
    ((w.run 60000 past).run 60000 among).book = ((w.run 60000 past).run 60000 before).book ∧
    ((w.run 60000 past).run 60000 before).book.bids.levels = [⟨6, 1⟩] := by
  intro diff s book w past ds among before
  have hs : (w.run 60000 past).book.uid ≤ s.updateId := by decide
  have hds : ds.length ≤ 2 := by decide
  have hamong : among.map (·.2) =
      (ds.take 1).map .diff ++ .snapshot s :: (ds.drop 1).map .diff := rfl
  have hbefore : before.map (·.2) = .snapshot s :: ds.map .diff := rfl
  have hbooks := book_eq_of_snapshot_among_diffs rfl 60000 past hs hds 1 hamong hbefore
  refine ⟨rfl, hs, hds, hamong, hbefore, hbooks, ?_⟩
  cbv

end Registration

end MarketDepth
