/-
**The order of a replay.**

What a snapshot and buffered diffs make of a book is a matter of these alone: of the book that is
rebuilt only the name and the trade figures are left.  Nor does it matter how the diffs are mixed.
The replay goes through the ids beyond the snapshot's in ascending order, and through the diffs of
one id in the order in which they are given; this describes one list of diffs only, whatever method
of sorting finds it.

Main definitions:

* `MarketDepth.withId` — the diffs of one id;
* `MarketDepth.SameWithinIds` — lists of diffs that differ in the mixture of ids only;
* `MarketDepth.ReplayOrder` — **the diffs that a replay applies, in order.**

Main results:

* `MarketDepth.eq_of_withId_eq` — diffs in the order of their ids are known from those of each id;
* `MarketDepth.Book.replayOrder_iff` — **a replay applies the diffs in the replay order**;
* `MarketDepth.Book.restore_eq_replay` — a rebuilt book.
-/

import MarketDepth.Proofs.Restore
import MarketDepth.Proofs.Operations

set_option relaxedAutoImplicit false
set_option autoImplicit false

namespace MarketDepth

/-! ### The diffs of one id -/

/-- The diffs of one id, in their order. -/
def withId (id : UInt64) (ds : List Update) : List Update :=
  ds.filter fun d => d.updateId = id

/-- At each id the lists have the same diffs in the same order; only how the ids are mixed may
differ. -/
def SameWithinIds (ds es : List Update) : Prop :=
  ∀ id, withId id ds = withId id es

@[simp] theorem withId_nil (id : UInt64) : withId id [] = [] := rfl

theorem withId_cons (id : UInt64) (d : Update) (ds : List Update) :
    withId id (d :: ds) = if d.updateId = id then d :: withId id ds else withId id ds := by
  simp [withId, List.filter_cons]

theorem mem_withId_iff {id : UInt64} {d : Update} {ds : List Update} :
    d ∈ withId id ds ↔ d ∈ ds ∧ d.updateId = id := by
  simp [withId]

namespace SameWithinIds

variable {ds es : List Update}

theorem mem_iff (h : SameWithinIds ds es) (d : Update) : d ∈ ds ↔ d ∈ es := by
  have hd : d ∈ withId d.updateId ds ↔ d ∈ withId d.updateId es := by rw [h d.updateId]
  simpa only [mem_withId_iff, and_true] using hd

/-- Where such lists begin with the same id, they begin with the same diff and go on alike. -/
theorem of_cons {d e : Update} (hid : d.updateId = e.updateId)
    (h : SameWithinIds (d :: ds) (e :: es)) : d = e ∧ SameWithinIds ds es := by
  have hhead := h e.updateId
  rw [withId_cons, withId_cons, if_pos hid, if_pos rfl, List.cons.injEq] at hhead
  refine ⟨hhead.1, ?_⟩
  intro id
  have htail := h id
  rw [withId_cons, withId_cons, hid, hhead.1] at htail
  split at htail
  · exact (List.cons.inj htail).2
  · exact htail

end SameWithinIds

/-- **Diffs in the order of their ids are known from those of each id.** -/
theorem eq_of_withId_eq {ds es : List Update}
    (hds : ds.Pairwise fun d e => d.updateId ≤ e.updateId)
    (hes : es.Pairwise fun d e => d.updateId ≤ e.updateId) (h : SameWithinIds ds es) :
    ds = es := by
  induction ds generalizing es with
  | nil =>
      refine (List.eq_nil_iff_forall_not_mem.2 ?_).symm
      exact fun e he => absurd ((h.mem_iff e).2 he) List.not_mem_nil
  | cons d ds ih =>
      cases es with
      | nil => exact absurd ((h.mem_iff d).1 List.mem_cons_self) List.not_mem_nil
      | cons e es =>
          rw [List.pairwise_cons] at hds hes
          -- both lists begin with their least id
          have hle : d.updateId ≤ e.updateId := by
            rcases List.mem_cons.1 ((h.mem_iff e).2 List.mem_cons_self) with rfl | he
            · exact UInt64.le_rfl
            · exact hds.1 e he
          have hge : e.updateId ≤ d.updateId := by
            rcases List.mem_cons.1 ((h.mem_iff d).1 List.mem_cons_self) with rfl | hd
            · exact UInt64.le_rfl
            · exact hes.1 d hd
          obtain ⟨rfl, htail⟩ := h.of_cons (UInt64.le_antisymm hle hge)
          rw [ih hds.2 hes.2 htail]

/-! ### Replay orders -/

/-- **The diffs that a replay over a snapshot with id `uid` applies, in order:** the ids ascend,
each id beyond `uid` has the given diffs of that id in the given order, and no other id occurs. -/
structure ReplayOrder (uid : UInt64) (given order : List Update) : Prop where
  ascending : order.Pairwise fun d e => d.updateId ≤ e.updateId
  newer : ∀ id, uid < id → withId id order = withId id given
  older : ∀ id, id ≤ uid → withId id order = []

namespace ReplayOrder

variable {uid : UInt64} {given given' order order' : List Update}

/-- There is one replay order at most. -/
theorem unique (h : ReplayOrder uid given order) (h' : ReplayOrder uid given order') :
    order = order' := by
  refine eq_of_withId_eq h.ascending h'.ascending ?_
  intro id
  rcases UInt64.lt_or_le uid id with hnewer | holder
  · rw [h.newer id hnewer, h'.newer id hnewer]
  · rw [h.older id holder, h'.older id holder]

/-- Given lists that differ in the mixture of ids only have the same replay order. -/
theorem of_sameWithinIds (h : ReplayOrder uid given order) (hgiven : SameWithinIds given given') :
    ReplayOrder uid given' order where
  ascending := h.ascending
  newer := fun id hid => (h.newer id hid).trans (hgiven id)
  older := h.older

end ReplayOrder

namespace Book

/-- Sorting diffs by their ids does not mix up those of one id. -/
theorem withId_mergeSort (id : UInt64) (ds : List Update) :
    withId id (ds.mergeSort fun a b => a.updateId ≤ b.updateId) = withId id ds := by
  have hsorted : (withId id ds).Pairwise fun a b => decide (a.updateId ≤ b.updateId) := by
    refine List.pairwise_of_forall_mem_list ?_
    intro d hd e he
    rw [(mem_withId_iff.1 hd).2, (mem_withId_iff.1 he).2]
    exact decide_eq_true UInt64.le_rfl
  -- an ascending sublist survives a stable sort, and these are all the diffs of the id
  have hkept : (withId id ds).Sublist (ds.mergeSort fun a b => a.updateId ≤ b.updateId) :=
    List.sublist_mergeSort updateId_le_trans updateId_le_total hsorted List.filter_sublist
  have hsublist := hkept.filter fun d => d.updateId = id
  have hlength := ((List.mergeSort_perm ds fun a b => a.updateId ≤ b.updateId).filter
    fun d => d.updateId = id).length_eq
  have hself : withId id (withId id ds) = withId id ds := by
    rw [withId, List.filter_eq_self]
    exact fun d hd => decide_eq_true (mem_withId_iff.1 hd).2
  change (withId id (withId id ds)).Sublist _ at hsublist
  rw [hself] at hsublist
  exact (hsublist.eq_of_length hlength.symm).symm

theorem replayOrder_replayable (uid : UInt64) (ds : List Update) :
    ReplayOrder uid ds (replayable uid ds) where
  ascending := replayable_sorted uid ds
  newer := by
    intro id hid
    rw [replayable, withId_mergeSort, withId, withId, List.filter_filter]
    refine List.filter_congr ?_
    intro d _
    by_cases hd : d.updateId = id
    · simp [hd, hid]
    · simp [hd]
  older := by
    intro id hid
    refine List.eq_nil_iff_forall_not_mem.2 ?_
    intro d hd
    obtain ⟨hmem, rfl⟩ := mem_withId_iff.1 hd
    exact UInt64.not_lt.2 hid (mem_replayable_iff.1 hmem).2

/-- **A replay applies the diffs in the replay order.** -/
theorem replayOrder_iff {uid : UInt64} {ds order : List Update} :
    ReplayOrder uid ds order ↔ order = replayable uid ds := by
  constructor
  · exact fun h => h.unique (replayOrder_replayable uid ds)
  · rintro rfl
    exact replayOrder_replayable uid ds

/-! ### Rebuilt books -/

/-- The depth of a rebuilt book is that of the snapshot with the diffs in the replay order. -/
theorem restore_of_replayOrder {s : Update} {ds order : List Update}
    (h : ReplayOrder s.updateId ds order) (book : Book) :
    book.restore s ds = book.withDepthOf (order.foldl applyDiff (ofSnapshot s)) := by
  rw [restore, ← replayOrder_iff.1 h, replaceLevels_eq, foldl_applyDiff_withDepthOf]

/-- What a book was before leaves no trace in its depth. -/
theorem restore_eq_withDepthOf (book other : Book) (s : Update) (ds : List Update) :
    book.restore s ds = book.withDepthOf (other.restore s ds) := by
  have hreplay := replayOrder_replayable s.updateId ds
  rw [restore_of_replayOrder hreplay book, restore_of_replayOrder hreplay other,
    withDepthOf_withDepthOf]

theorem isGreatest_uid_restore (book : Book) (s : Update) (ds : List Update) :
    IsGreatest {id | id ∈ s.updateId :: ds.map (·.updateId)} (book.restore s ds).uid := by
  rw [uid_restore]
  refine ⟨latestId_mem s.updateId ds, ?_⟩
  intro id hid
  rcases List.mem_cons.1 hid with rfl | hid
  · exact le_latestId _ ds
  · obtain ⟨d, hd, rfl⟩ := List.mem_map.1 hid
    exact updateId_le_latestId hd

theorem restore_of_sameWithinIds {ds ds' : List Update} (h : SameWithinIds ds ds') (book : Book)
    (s : Update) : book.restore s ds' = book.restore s ds := by
  have hreplay := replayOrder_replayable s.updateId ds
  rw [restore_of_replayOrder (hreplay.of_sameWithinIds h), restore_of_replayOrder hreplay]

theorem restore_restore (book : Book) (s : Update) (ds : List Update) :
    (book.restore s ds).restore s ds = book.restore s ds :=
  (restore_eq_withDepthOf (book.restore s ds) book s ds).trans (withDepthOf_self _)

/-- **A rebuilt book is a matter of the snapshot and the diffs.**  There is exactly one order of
replay, and the rebuilt book has the levels and the id that applying the diffs in this order to the
book of the snapshot gives, whatever levels and id it had before; its name and its trade figures
stay.  Its id is the greatest of all the ids at hand.  Diffs whose ids are mixed otherwise give the
same book, and rebuilding it once more changes nothing. -/
theorem restore_eq_replay (book : Book) (s : Update) (ds : List Update) :
    (∃! order, ReplayOrder s.updateId ds order) ∧
    (∀ order, ReplayOrder s.updateId ds order →
      book.restore s ds = book.withDepthOf (order.foldl applyDiff (ofSnapshot s))) ∧
    (∀ other : Book, book.restore s ds = book.withDepthOf (other.restore s ds)) ∧
    IsGreatest {id | id ∈ s.updateId :: ds.map (·.updateId)} (book.restore s ds).uid ∧
    (∀ ds', SameWithinIds ds ds' → book.restore s ds' = book.restore s ds) ∧
    (book.restore s ds).restore s ds = book.restore s ds := by
  refine ⟨⟨_, replayOrder_replayable s.updateId ds, ?one⟩, ?replay, ?other, ?latest, ?mixed, ?again⟩
  case one => exact fun order horder => replayOrder_iff.1 horder
  case replay => exact fun order horder => restore_of_replayOrder horder book
  case other => exact fun other => restore_eq_withDepthOf book other s ds
  case latest => exact isGreatest_uid_restore book s ds
  case mixed => exact fun ds' hds => restore_of_sameWithinIds hds book s
  case again => exact restore_restore book s ds

/-- The diffs 7 and 8 are replayed over the snapshot 6, with the second diff 7 behind the first,
wherever 5 and 8 stand. -/
theorem restore_eq_replay_of_mixed_diffs :
    let diff (id price size : UInt64) : Update :=
      { instrument := "A", updateId := id, timestamp := 0, bids := [⟨price, size⟩] }
    let book : Book := { instrument := "A", bids := .ofLevels [⟨80, 1⟩], uid := 9, tradeCount := 2 }
    let s : Update := diff 6 100 1
    let ds : List Update := [diff 5 90 1, diff 8 91 2, diff 7 100 9, diff 7 100 0]
    let ds' : List Update := [diff 7 100 9, diff 7 100 0, diff 8 91 2, diff 5 90 1]
    SameWithinIds ds ds' ∧ ReplayOrder s.updateId ds [diff 7 100 9, diff 7 100 0, diff 8 91 2] ∧
    book.restore s ds' = book.restore s ds ∧ (book.restore s ds).bids.levels = [⟨91, 2⟩] ∧
    (book.restore s ds).uid = 8 := by
  intro diff book s ds ds'
  obtain ⟨-, hreplay, -, -, hmixed, -⟩ := restore_eq_replay book s ds
  have hsame : SameWithinIds ds ds' := by
    intro id
    by_cases h8 : 8 = id
    · rw [← h8]
      decide
    · by_cases h5 : 5 = id
      · rw [← h5]
        decide
      · simp [ds, ds', diff, withId_cons, h8, h5]
  have horder : ReplayOrder s.updateId ds [diff 7 100 9, diff 7 100 0, diff 8 91 2] :=
    replayOrder_iff.2 (by cbv)
  refine ⟨hsame, horder, hmixed ds' hsame, ?_, ?_⟩
  · rw [hreplay _ horder]
    decide
  · rw [hreplay _ horder]
    decide

end Book

end MarketDepth
