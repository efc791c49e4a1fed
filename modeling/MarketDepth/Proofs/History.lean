/-
**Books against the history of an exchange.**

The history of an instrument at its exchange is a picture to begin with and the diffs that followed
it, with ids that increase.  Its picture after the first diffs is the truth as of that position.
A worker sees diffs of the history late, twice or not at all, and snapshots of positions before and
behind its own.  As long as no diff is skipped and every snapshot is true, its book is true all the
time; and if diffs have been lost, one true snapshot repairs the book, whatever it was before,
provided that the window still holds what was applied since.

Main definitions:

* `MarketDepth.History`, with `History.picture` and `History.position`;
* `MarketDepth.History.Admits` — the messages of a feed without gaps;
* `MarketDepth.History.Tracks` — **book and window are true as of a position.**

Main results:

* `MarketDepth.History.filter_window_eq` — what a true snapshot finds in the window;
* `MarketDepth.History.Tracks.handle` — a message of a feed without gaps keeps the book true;
* `MarketDepth.History.shows_along_run` — **the book is true after every message;**
* `MarketDepth.History.shows_after_gap` — **a true snapshot repairs the book.**
-/

import MarketDepth.Proofs.Worker

set_option relaxedAutoImplicit false
set_option autoImplicit false

namespace MarketDepth

/-! ### Histories -/

/-- What an exchange has published: a picture and the diffs that followed it. -/
structure History where
  base : Picture
  diffs : List Update
  /-- The ids of the diffs increase. -/
  ascending : Ascending diffs

namespace History

/-- **The truth at a position:** the picture after the first `k` diffs. -/
def picture (h : History) (k : Nat) : Picture :=
  (h.diffs.take k).foldl Picture.update h.base

/-- The position that an id belongs to: how many diffs it is not behind. -/
def position (h : History) (uid : UInt64) : Nat :=
  h.diffs.countP (·.updateId ≤ uid)

variable {h : History}

theorem picture_succ {k : Nat} {d : Update} (hd : h.diffs[k]? = some d) :
    h.picture (k + 1) = (h.picture k).update d := by
  rw [picture, List.take_add_one, hd, List.foldl_append]
  rfl

theorem ascending_between (h : History) (i k : Nat) : Ascending ((h.diffs.take k).drop i) :=
  h.ascending.sublist ((List.drop_sublist _ _).trans (List.take_sublist _ _))

/-- The diffs between two positions lead from the one picture to the other. -/
theorem foldl_update_picture (h : History) (i k : Nat) :
    ((h.diffs.take k).drop i).foldl Picture.update (h.picture i) = h.picture (max i k) := by
  rcases Nat.le_total i k with hik | hki
  · have htake : h.diffs.take i = (h.diffs.take k).take i := by
      rw [List.take_take, Nat.min_eq_left hik]
    rw [picture, htake, ← List.foldl_append, List.take_append_drop, Nat.max_eq_right hik]
    rfl
  · have hnil : (h.diffs.take k).drop i = [] :=
      List.drop_eq_nil_of_le (Nat.le_trans (List.length_take_le k _) hki)
    rw [hnil, Nat.max_eq_left hki]
    rfl

/-! ### Ids and positions -/

/-- The diffs up to a position are not beyond its picture. -/
theorem le_uid_of_mem_take {k : Nat} {d : Update} (hd : d ∈ h.diffs.take k) :
    d.updateId ≤ (h.picture k).uid := by
  have hascending : Ascending (h.diffs.take k) := h.ascending.sublist (List.take_sublist k _)
  rw [picture]
  rcases List.eq_nil_or_concat (h.diffs.take k) with hnil | ⟨init, e, hconcat⟩
  · rw [hnil] at hd
    exact absurd hd List.not_mem_nil
  · rw [List.concat_eq_append] at hconcat
    rw [hconcat] at hd hascending ⊢
    rw [List.foldl_append]
    rcases List.mem_append.1 hd with hd | hd
    · exact UInt64.le_of_lt
        ((List.pairwise_append.1 hascending).2.2 d hd e (List.mem_singleton.2 rfl))
    · rw [List.mem_singleton.1 hd]
      exact UInt64.le_rfl

/-- The diffs behind a position are beyond its picture, if those of the history are beyond its
base. -/
theorem uid_lt_of_mem_drop (above : ∀ d ∈ h.diffs, h.base.uid < d.updateId) {k : Nat} {d : Update}
    (hd : d ∈ h.diffs.drop k) : (h.picture k).uid < d.updateId := by
  have hascending := h.ascending
  rw [← List.take_append_drop k h.diffs] at hascending
  rw [picture]
  rcases List.eq_nil_or_concat (h.diffs.take k) with hnil | ⟨init, e, hconcat⟩
  · rw [hnil]
    exact above d (List.mem_of_mem_drop hd)
  · rw [List.concat_eq_append] at hconcat
    rw [hconcat] at hascending ⊢
    rw [List.foldl_append]
    exact (List.pairwise_append.1 hascending).2.2 e
      (List.mem_append_right _ (List.mem_singleton.2 rfl)) d hd

/-- **The id of a picture belongs to its position.** -/
theorem position_uid (above : ∀ d ∈ h.diffs, h.base.uid < d.updateId) {k : Nat}
    (hk : k ≤ h.diffs.length) : h.position (h.picture k).uid = k := by
  have hsplit : h.position (h.picture k).uid =
      (h.diffs.take k).countP (·.updateId ≤ (h.picture k).uid) +
        (h.diffs.drop k).countP (·.updateId ≤ (h.picture k).uid) := by
    rw [← List.countP_append, List.take_append_drop]
    rfl
  have htake : (h.diffs.take k).countP (·.updateId ≤ (h.picture k).uid) = k := by
    rw [List.countP_eq_length.2, List.length_take, Nat.min_eq_left hk]
    intro d hd
    exact decide_eq_true (le_uid_of_mem_take hd)
  have hdrop : (h.diffs.drop k).countP (·.updateId ≤ (h.picture k).uid) = 0 := by
    refine List.countP_eq_zero.2 ?_
    intro d hd
    simpa using uid_lt_of_mem_drop above hd
  rw [hsplit, htake, hdrop, Nat.add_zero]

/-! ### True snapshots -/

/-- A snapshot true as of position `i` leads the book to position `k`, if the window holds exactly
the diffs between the two among those beyond the snapshot. -/
theorem shows_restore {r : Reconciler} {applied : List Update} (hr : r.Remembers applied)
    {s : Update} {i k : Nat} (hs : Picture.ofSnapshot s = h.picture i)
    (hwindow : (r.window.diffs.filter fun d => s.updateId < d.updateId) =
      (h.diffs.take k).drop i) :
    (r.restore s).book.Shows (h.picture (max i k)) := by
  have hshows := Book.shows_restore hr.window_ascending r.book s
  rw [hwindow, hs, foldl_update_picture] at hshows
  exact hshows

/-! ### A feed without gaps -/

/-- **The messages of a feed without gaps.**  A diff is at most one position past that of the book.
A snapshot is true as of some position; if that is behind the book's, then all diffs in between are
still in the window. -/
def Admits (h : History) (r : Reconciler) : Message → Prop
  | .diff d => d ∈ h.diffs.take (h.position r.book.uid + 1)
  | .snapshot s => ∃ i ≤ h.diffs.length, Picture.ofSnapshot s = h.picture i ∧
      (h.position r.book.uid ≤ i ∨
        ∀ d ∈ (h.diffs.take (h.position r.book.uid)).drop i, d ∈ r.window.diffs)
  | .trade _ => True

/-- **Book and window are true as of a position:** the book shows the truth there, and the window
has nothing but diffs of the history. -/
structure Tracks (h : History) (r : Reconciler) (k : Nat) : Prop where
  le : k ≤ h.diffs.length
  shows : r.book.Shows (h.picture k)
  recorded : ∀ d ∈ r.window.diffs, d ∈ h.diffs

namespace Tracks

variable {r : Reconciler} {k : Nat} {applied : List Update}

theorem position_eq (ht : h.Tracks r k) (above : ∀ d ∈ h.diffs, h.base.uid < d.updateId) :
    h.position r.book.uid = k := by
  rw [ht.shows.uid]
  exact position_uid above ht.le

/-- The diffs that a snapshot true as of position `i` finds newer than itself in the window are
those between its position and that of the book. -/
theorem filter_window_eq (ht : h.Tracks r k) (above : ∀ d ∈ h.diffs, h.base.uid < d.updateId)
    (hr : r.Remembers applied) {i : Nat}
    (hkept : k ≤ i ∨ ∀ d ∈ (h.diffs.take k).drop i, d ∈ r.window.diffs) :
    (r.window.diffs.filter fun d => (h.picture i).uid < d.updateId) =
      (h.diffs.take k).drop i := by
  refine hr.window_ascending.filter_eq_of_mem_iff (h.ascending_between i k) ?_
  intro d
  constructor
  · rintro ⟨hd, hlt⟩
    -- `d` is not behind the book's position, and not up to that of the snapshot
    have htake : d ∈ h.diffs.take k := by
      have hmem := ht.recorded d hd
      rw [← List.take_append_drop k h.diffs] at hmem
      refine (List.mem_append.1 hmem).resolve_right ?_
      intro hdrop
      have hle := hr.le_uid d (hr.window_suffix.mem hd)
      rw [ht.shows.uid] at hle
      exact UInt64.lt_irrefl _ (UInt64.lt_of_lt_of_le (uid_lt_of_mem_drop above hdrop) hle)
    rw [← List.take_append_drop i (h.diffs.take k)] at htake
    refine (List.mem_append.1 htake).resolve_left ?_
    intro hi
    rw [List.take_take, Nat.min_comm, ← List.take_take] at hi
    have hle := le_uid_of_mem_take (List.mem_of_mem_take hi)
    exact UInt64.lt_irrefl _ (UInt64.lt_of_lt_of_le hlt hle)
  · intro hd
    have hdrop : d ∈ h.diffs.drop i := by
      rw [List.drop_take] at hd
      exact List.mem_of_mem_take hd
    refine ⟨?_, uid_lt_of_mem_drop above hdrop⟩
    rcases hkept with hki | hwindow
    · rw [List.drop_eq_nil_of_le (Nat.le_trans (List.length_take_le k _) hki)] at hd
      exact absurd hd List.not_mem_nil
    · exact hwindow d hd

/-- A diff that is at most one position past the book is skipped, or takes it one further. -/
theorem handle_diff (ht : h.Tracks r k) (above : ∀ d ∈ h.diffs, h.base.uid < d.updateId)
    {d : Update} (hd : d ∈ h.diffs.take (k + 1)) :
    ∃ k', k ≤ k' ∧ h.Tracks (r.handle (.diff d)) k' := by
  rw [List.take_add_one] at hd
  rcases List.mem_append.1 hd with hd | hd
  · have hstale : r.isStale d = true := by
      rw [Reconciler.isStale_eq_true_iff, ht.shows.uid]
      exact le_uid_of_mem_take hd
    rw [Reconciler.handle_diff_of_stale hstale]
    exact ⟨k, Nat.le_refl k, ht⟩
  · have hnext : h.diffs[k]? = some d := Option.mem_toList.1 hd
    have hmem : d ∈ h.diffs := List.mem_of_getElem? hnext
    have hdrop : d ∈ h.diffs.drop k := by
      refine List.mem_of_getElem? (i := 0) ?_
      rw [List.getElem?_drop]
      exact hnext
    have hfresh : r.isStale d = false := by
      rw [Reconciler.isStale_eq_false_iff, ht.shows.uid]
      exact uid_lt_of_mem_drop above hdrop
    rw [Reconciler.handle_diff_of_fresh hfresh]
    refine ⟨k + 1, Nat.le_succ k, ?_, ?_, ?_⟩
    · exact (List.getElem?_eq_some_iff.1 hnext).1
    · rw [picture_succ hnext]
      exact ht.shows.applyDiff d
    · intro e he
      rcases List.mem_append.1 ((Window.keepLast_suffix _ _).mem he) with he | he
      · exact ht.recorded e he
      · rw [List.mem_singleton.1 he]
        exact hmem

/-- **A message of a feed without gaps keeps the book true** and does not take it back. -/
theorem handle (ht : h.Tracks r k) (above : ∀ d ∈ h.diffs, h.base.uid < d.updateId)
    (hr : r.Remembers applied) {m : Message} (hm : h.Admits r m) :
    ∃ k', k ≤ k' ∧ h.Tracks (r.handle m) k' := by
  have hk := ht.position_eq above
  cases m with
  | diff d =>
      change d ∈ h.diffs.take (h.position r.book.uid + 1) at hm
      rw [hk] at hm
      exact ht.handle_diff above hm
  | snapshot s =>
      obtain ⟨i, hi, hs, hkept⟩ := hm
      rw [hk] at hkept
      have huid : s.updateId = (h.picture i).uid := congrArg Picture.uid hs
      have hwindow := ht.filter_window_eq above hr hkept
      rw [← huid] at hwindow
      refine ⟨max i k, Nat.le_max_right i k, ?_, shows_restore hr hs hwindow, ht.recorded⟩
      exact Nat.max_le.2 ⟨hi, ht.le⟩
  | trade t => exact ⟨k, Nat.le_refl k, ht⟩

end Tracks

/-! ### Books of a worker -/

/-- One more message of a feed without gaps. -/
theorem Tracks.run_succ (above : ∀ d ∈ h.diffs, h.base.uid < d.updateId) {w : Registration}
    {book : Book} {windowSize : Nat} (start : w.reconciler = .start book windowSize)
    (room : 1 ≤ windowSize) {statsInterval : Nat} {arrivals : List (Nat × Message)} {n k : Nat}
    (hadmits : ∀ a, arrivals[n]? = some a →
      h.Admits (w.run statsInterval (arrivals.take n)).reconciler a.2)
    (ht : h.Tracks (w.run statsInterval (arrivals.take n)).reconciler k) :
    ∃ k', k ≤ k' ∧ h.Tracks (w.run statsInterval (arrivals.take (n + 1))).reconciler k' := by
  rw [List.take_add_one]
  cases ha : arrivals[n]? with
  | none =>
      rw [Option.toList_none, List.append_nil]
      exact ⟨k, Nat.le_refl k, ht⟩
  | some a =>
      rw [Option.toList_some, Registration.run_concat, Registration.reconciler_after]
      exact ht.handle above (Registration.remembers_run start room _ _) (hadmits a ha)

/-- **The book is true after every message.**  A worker whose book starts out true as of some
position, and that gets the messages of a feed without gaps, has after each of them the truth as of
the position that its id belongs to, and this position never decreases. -/
theorem shows_along_run (above : ∀ d ∈ h.diffs, h.base.uid < d.updateId) {w : Registration}
    {book : Book} {windowSize : Nat} (start : w.reconciler = .start book windowSize)
    (room : 1 ≤ windowSize) {j : Nat} (hj : j ≤ h.diffs.length) (hbook : book.Shows (h.picture j))
    (statsInterval : Nat) {arrivals : List (Nat × Message)}
    (hadmits : ∀ n a, arrivals[n]? = some a →
      h.Admits (w.run statsInterval (arrivals.take n)).reconciler a.2) :
    (∀ n, (w.run statsInterval (arrivals.take n)).book.Shows
      (h.picture (h.position (w.run statsInterval (arrivals.take n)).book.uid))) ∧
    ∀ n n', n ≤ n' → h.position (w.run statsInterval (arrivals.take n)).book.uid ≤
      h.position (w.run statsInterval (arrivals.take n')).book.uid := by
  have tracks : ∀ n, ∃ k, h.Tracks (w.run statsInterval (arrivals.take n)).reconciler k := by
    intro n
    induction n with
    | zero =>
        refine ⟨j, hj, ?_, ?_⟩
        · change w.reconciler.book.Shows _
          rw [start]
          exact hbook
        · change ∀ d ∈ w.reconciler.window.diffs, d ∈ h.diffs
          rw [start]
          exact fun d hd => absurd hd List.not_mem_nil
    | succ n ih =>
        obtain ⟨k, ht⟩ := ih
        obtain ⟨k', -, ht'⟩ := ht.run_succ above start room (hadmits n)
        exact ⟨k', ht'⟩
  constructor
  · intro n
    obtain ⟨k, ht⟩ := tracks n
    have hk : h.position (w.run statsInterval (arrivals.take n)).book.uid = k :=
      ht.position_eq above
    rw [hk]
    exact ht.shows
  · intro n n' hn
    induction hn with
    | refl => exact Nat.le_refl _
    | @step n' _ ih =>
        refine Nat.le_trans ih ?_
        obtain ⟨k, ht⟩ := tracks n'
        obtain ⟨k', hk, ht'⟩ := ht.run_succ above start room (hadmits n')
        have hpos : h.position (w.run statsInterval (arrivals.take n')).book.uid = k :=
          ht.position_eq above
        have hpos' : h.position (w.run statsInterval (arrivals.take (n' + 1))).book.uid = k' :=
          ht'.position_eq above
        rw [hpos, hpos']
        exact hk

/-- The snapshot 11 lands when the book is at 12 and has forgotten the diff 11, but not 12. -/
theorem shows_along_run_past_old_snapshot :
    let update (id : UInt64) (bids : List Level) : Update :=
      { instrument := "A", updateId := id, timestamp := 0, bids }
    let first := update 11 [⟨4, 0⟩, ⟨6, 2⟩]
    let second := update 12 [⟨6, 3⟩]
    let old := update 11 [⟨6, 2⟩, ⟨5, 1⟩]
    let h : History := {
      base := .ofSnapshot (update 10 [⟨5, 1⟩, ⟨4, 1⟩])
      diffs := [first, second]
      ascending := List.pairwise_pair.2 (by decide) }
    let book : Book := .ofSnapshot (update 10 [⟨5, 1⟩, ⟨4, 1⟩])
    let w : Registration := .start 0 "A" book 1 0 true
    let arrivals : List (Nat × Message) :=
      [(0, .diff first), (1, .diff second), (2, .snapshot old)]
    (∀ d ∈ h.diffs, h.base.uid < d.updateId) ∧ w.reconciler = .start book 1 ∧ 1 ≤ 1 ∧
    0 ≤ h.diffs.length ∧ book.Shows (h.picture 0) ∧
    (∀ n a, arrivals[n]? = some a →
      h.Admits (w.run 60000 (arrivals.take n)).reconciler a.2) ∧
    (w.run 60000 (arrivals.take 3)).book.Shows (h.picture 2) := by
  intro update first second old h book w arrivals
  have above : ∀ d ∈ h.diffs, h.base.uid < d.updateId := by
    intro d hd
    rcases List.mem_cons.1 hd with rfl | hd
    · decide
    · rw [List.mem_singleton.1 hd]
      decide
  have hbook : book.Shows (h.picture 0) := Book.shows_replaceLevels _ _
  have hold : Picture.ofSnapshot old = h.picture 1 := by
    refine Picture.ofSnapshot_eq_of_lists ?_ ?_ rfl
    · rintro ⟨p, q⟩
      simp only [old, update, h, picture, Picture.update, Picture.ofSnapshot, overwrite, first,
        List.take_succ_cons, List.take_zero, List.foldl_cons, List.foldl_nil,
        Function.update_apply, List.mem_cons, List.not_mem_nil, Level.mk.injEq]
      grind
    · rintro ⟨p, q⟩
      simp only [old, update, h, picture, Picture.update, Picture.ofSnapshot, overwrite, first,
        List.take_succ_cons, List.take_zero, List.foldl_cons, List.foldl_nil, List.not_mem_nil]
      grind
  have hadmits : ∀ n a, arrivals[n]? = some a →
      h.Admits (w.run 60000 (arrivals.take n)).reconciler a.2 := by
    intro n a ha
    match n with
    | 0 =>
        obtain rfl := Option.some.inj ha
        exact List.mem_cons_self
    | 1 =>
        obtain rfl := Option.some.inj ha
        have hpos : h.position (w.run 60000 (arrivals.take 1)).reconciler.book.uid = 1 := by cbv
        change second ∈ h.diffs.take (h.position _ + 1)
        rw [hpos]
        exact List.mem_cons_of_mem _ List.mem_cons_self
    | 2 =>
        obtain rfl := Option.some.inj ha
        have hpos : h.position (w.run 60000 (arrivals.take 2)).reconciler.book.uid = 2 := by cbv
        have hwindow : (w.run 60000 (arrivals.take 2)).reconciler.window.diffs = [second] := by cbv
        refine ⟨1, by decide, hold, Or.inr ?_⟩
        rw [hpos, hwindow]
        exact fun d hd => hd
    | n + 3 => cases ha
  have hshows := (shows_along_run above rfl (Nat.le_refl 1) (Nat.zero_le _) hbook 60000 hadmits).1 3
  have hpos : h.position (w.run 60000 (arrivals.take 3)).book.uid = 2 := by cbv
  rw [hpos] at hshows
  exact ⟨above, rfl, Nat.le_refl 1, Nat.zero_le _, hbook, hadmits, hshows⟩

/-- **A true snapshot repairs the book,** whatever book the worker started with and whatever
snapshots it has had, if the diffs applied beyond the snapshot are those of the history up to some
position, and not more than the window has room for.  What was applied or lost before does not
matter. -/
theorem shows_after_gap {w : Registration} {book : Book} {windowSize : Nat}
    (start : w.reconciler = .start book windowSize) (room : 1 ≤ windowSize) (statsInterval : Nat)
    (arrivals : List (Nat × Message)) {s : Update} {i m : Nat} (him : i ≤ m)
    (hroom : m - i ≤ windowSize) (hs : Picture.ofSnapshot s = h.picture i)
    (hsince : ∀ d, d ∈ w.reconciler.applied (arrivals.map (·.2)) ∧ s.updateId < d.updateId ↔
      d ∈ (h.diffs.take m).drop i) (now : Nat) :
    ((w.run statsInterval arrivals).after statsInterval (now, .snapshot s)).book.Shows
      (h.picture m) := by
  have hr := Registration.remembers_run start room statsInterval arrivals
  have happlied : ((w.reconciler.applied (arrivals.map (·.2))).filter
      fun d => s.updateId < d.updateId) = (h.diffs.take m).drop i :=
    hr.ascending.filter_eq_of_mem_iff (h.ascending_between i m) hsince
  have hlen : ((w.reconciler.applied (arrivals.map (·.2))).filter
      fun d => s.updateId < d.updateId).length ≤
      (w.run statsInterval arrivals).reconciler.window.capacity := by
    rw [happlied, Registration.capacity_run start, List.length_drop]
    have htake := List.length_take_le m h.diffs
    omega
  have hshows := shows_restore hr hs ((hr.filter_window hlen).trans happlied)
  rw [Nat.max_eq_right him] at hshows
  exact hshows

/-- A worker with a wrong book, a wrong snapshot and without the diff 11 gets the snapshot 11. -/
theorem shows_after_gap_from_wrong_book :
    let update (id : UInt64) (bids : List Level) : Update :=
      { instrument := "A", updateId := id, timestamp := 0, bids }
    let second := update 12 [⟨6, 3⟩]
    let third := update 13 [⟨5, 0⟩]
    let s := update 11 [⟨4, 0⟩, ⟨5, 1⟩, ⟨6, 2⟩]
    let h : History := {
      base := .ofSnapshot (update 10 [⟨5, 1⟩])
      diffs := [update 11 [⟨6, 2⟩], second, third]
      ascending := by unfold Ascending; decide }
    let book : Book := .ofSnapshot (update 7 [⟨9, 9⟩])
    let w : Registration := .start 0 "A" book 2 0 true
    let arrivals : List (Nat × Message) :=
      [(0, .diff second), (1, .snapshot (update 3 [⟨8, 8⟩])), (2, .diff third)]
    w.reconciler = .start book 2 ∧ 1 ≤ 2 ∧ 1 ≤ 3 ∧ 3 - 1 ≤ 2 ∧
    Picture.ofSnapshot s = h.picture 1 ∧
    (∀ d, d ∈ w.reconciler.applied (arrivals.map (·.2)) ∧ s.updateId < d.updateId ↔
      d ∈ (h.diffs.take 3).drop 1) ∧
    ((w.run 60000 arrivals).after 60000 (3, .snapshot s)).book.Shows (h.picture 3) := by
  intro update second third s h book w arrivals
  have hs : Picture.ofSnapshot s = h.picture 1 := by
    refine Picture.ext ?_ rfl rfl
    funext p
    simp only [Picture.ofSnapshot, picture, Picture.update, overwrite, s, update, h,
      List.take_succ_cons, List.take_zero, List.foldl_cons, List.foldl_nil, Function.update_apply]
    grind
  have happlied : w.reconciler.applied (arrivals.map (·.2)) = [second, third] := by cbv
  have hnewer : ∀ d ∈ [second, third], s.updateId < d.updateId := by
    intro d hd
    rcases List.mem_cons.1 hd with rfl | hd
    · decide
    · rw [List.mem_singleton.1 hd]
      decide
  have hsince : ∀ d, d ∈ w.reconciler.applied (arrivals.map (·.2)) ∧ s.updateId < d.updateId ↔
      d ∈ (h.diffs.take 3).drop 1 := by
    intro d
    rw [happlied]
    exact ⟨fun hd => hd.1, fun hd => ⟨hd, hnewer d hd⟩⟩
  have hshows := shows_after_gap rfl (by decide) 60000 arrivals (by decide) (by decide) hs hsince 3
  exact ⟨rfl, by decide, by decide, by decide, hs, hsince, hshows⟩

end History

end MarketDepth
