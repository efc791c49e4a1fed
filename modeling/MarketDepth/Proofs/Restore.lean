/-
**Rebuilding a book from a snapshot.**

A snapshot replaces everything that a book shows, and the buffered diffs that are newer are
replayed over it in the order of their ids.  So the id of the rebuilt book is the greatest among
those of the snapshot and of all diffs, replayed or not; and where the diffs stand in ascending
order already, as those of a window do, nothing is left of the sorting.

Main definitions:

* `MarketDepth.latestId` — the greatest of an id and the ids of diffs;
* `MarketDepth.Ascending` — diffs whose ids increase strictly.

Main results:

* `MarketDepth.Ascending.eq_of_mem_iff` — ascending lists of the same diffs are equal;
* `MarketDepth.Book.uid_restore` — **the id of a rebuilt book**;
* `MarketDepth.Book.restore_of_ascending` — the replay of ascending diffs;
* `MarketDepth.Book.shows_restore` — the picture that a book shows after a replay.
-/

import MarketDepth.Proofs.Picture

set_option relaxedAutoImplicit false
set_option autoImplicit false

namespace MarketDepth

/-! ### The latest id -/

/-- The greater of two words is the one that the order tells. -/
instance instLawfulMaxWord : Std.LawfulOrderLeftLeaningMax UInt64 := .of_eq fun a b => by
  change (if a ≤ b then b else a) = if b ≤ a then a else b
  grind

/-- The greatest of an id and the ids of diffs. -/
def latestId (uid : UInt64) (diffs : List Update) : UInt64 :=
  diffs.foldl (fun u d => max u d.updateId) uid

@[simp] theorem latestId_nil (uid : UInt64) : latestId uid [] = uid := rfl

theorem latestId_cons (uid : UInt64) (d : Update) (ds : List Update) :
    latestId uid (d :: ds) = latestId (max uid d.updateId) ds := rfl

/-- The latest id is the least bound of all the ids. -/
theorem latestId_le_iff {uid bound : UInt64} {ds : List Update} :
    latestId uid ds ≤ bound ↔ uid ≤ bound ∧ ∀ d ∈ ds, d.updateId ≤ bound := by
  induction ds generalizing uid with
  | nil => simp
  | cons d ds ih =>
      rw [latestId_cons, ih, Std.max_le_iff]
      simp only [List.mem_cons, forall_eq_or_imp, and_assoc]

theorem le_latestId (uid : UInt64) (ds : List Update) : uid ≤ latestId uid ds :=
  (latestId_le_iff.1 UInt64.le_rfl).1

theorem updateId_le_latestId {uid : UInt64} {ds : List Update} {d : Update} (h : d ∈ ds) :
    d.updateId ≤ latestId uid ds :=
  (latestId_le_iff.1 UInt64.le_rfl).2 d h

/-- The latest id is one of the ids. -/
theorem latestId_mem (uid : UInt64) (ds : List Update) :
    latestId uid ds ∈ uid :: ds.map (·.updateId) := by
  induction ds generalizing uid with
  | nil => exact List.mem_singleton.2 rfl
  | cons d ds ih =>
      rw [latestId_cons, List.map_cons]
      rcases List.mem_cons.1 (ih (max uid d.updateId)) with hmax | hlater
      · rw [hmax]
        rcases Std.MaxEqOr.max_eq_or uid d.updateId with h | h
        · rw [h]
          exact List.mem_cons_self
        · rw [h]
          exact List.mem_cons_of_mem _ List.mem_cons_self
      · exact List.mem_cons_of_mem _ (List.mem_cons_of_mem _ hlater)

/-! ### Ascending diffs -/

/-- The ids of the diffs increase strictly. -/
def Ascending (diffs : List Update) : Prop :=
  diffs.Pairwise fun d e => d.updateId < e.updateId

/-- Ids tell diffs apart: no two are each before the other. -/
instance instAsymmUpdateId : Std.Asymm fun d e : Update => d.updateId < e.updateId where
  asymm := fun _ _ hde hed => UInt64.lt_irrefl _ (UInt64.lt_trans hde hed)

namespace Ascending

variable {ds es : List Update}

theorem nil : Ascending [] := List.Pairwise.nil

theorem sublist (h : Ascending ds) (hes : es.Sublist ds) : Ascending es :=
  List.Pairwise.sublist hes h

/-- A diff beyond all others may follow them. -/
theorem concat (h : Ascending ds) {d : Update} (hd : ∀ e ∈ ds, e.updateId < d.updateId) :
    Ascending (ds ++ [d]) := by
  refine List.pairwise_append.2 ⟨h, List.pairwise_singleton _ _, ?_⟩
  intro e he x hx
  rw [List.mem_singleton.1 hx]
  exact hd e he

/-- **Ascending lists of the same diffs are equal.** -/
theorem eq_of_mem_iff (hds : Ascending ds) (hes : Ascending es) (h : ∀ d, d ∈ ds ↔ d ∈ es) :
    ds = es :=
  List.Pairwise.eq_of_mem_iff hds hes h

/-- The diffs beyond an id are known from their members. -/
theorem filter_eq_of_mem_iff (hds : Ascending ds) (hes : Ascending es) {uid : UInt64}
    (h : ∀ d, d ∈ ds ∧ uid < d.updateId ↔ d ∈ es) :
    (ds.filter fun d => uid < d.updateId) = es := by
  refine (hds.sublist List.filter_sublist).eq_of_mem_iff hes ?_
  intro d
  rw [List.mem_filter, decide_eq_true_eq]
  exact h d

/-- The diffs beyond an id stand at the end. -/
theorem filter_suffix (h : Ascending ds) (uid : UInt64) :
    (ds.filter fun d => uid < d.updateId) <:+ ds := by
  induction ds with
  | nil => exact List.suffix_refl _
  | cons d ds ih =>
      have htail := List.pairwise_cons.1 h
      rcases UInt64.lt_or_le uid d.updateId with hlt | hle
      · have hall : ((d :: ds).filter fun d => uid < d.updateId) = d :: ds := by
          refine List.filter_eq_self.2 ?_
          intro e he
          rcases List.mem_cons.1 he with rfl | he
          · exact decide_eq_true hlt
          · exact decide_eq_true (UInt64.lt_trans hlt (htail.1 e he))
        exact ⟨[], hall⟩
      · have hdrop : ¬ decide (uid < d.updateId) = true := by simpa using hle
        rw [List.filter_cons, if_neg hdrop]
        exact (ih htail.2).trans (List.suffix_cons d ds)

/-- Over ascending diffs, the latest id is that of the last diff, if it exceeds the first id. -/
theorem latestId_eq (h : Ascending ds) (uid : UInt64) :
    latestId uid ds = (ds.getLast?.map fun d => max uid d.updateId).getD uid := by
  rcases List.eq_nil_or_concat ds with rfl | ⟨init, d, rfl⟩
  · rfl
  · rw [List.concat_eq_append] at h ⊢
    rw [List.getLast?_concat, Option.map_some, Option.getD_some]
    have hinit : ∀ e ∈ init, e.updateId ≤ max uid d.updateId := by
      intro e he
      have hlt : e.updateId < d.updateId :=
        (List.pairwise_append.1 h).2.2 e he d (List.mem_singleton.2 rfl)
      exact UInt64.le_trans (UInt64.le_of_lt hlt) Std.right_le_max
    refine UInt64.le_antisymm (latestId_le_iff.2 ⟨Std.left_le_max, ?_⟩) (Std.max_le_iff.2 ⟨?_, ?_⟩)
    · intro e he
      rcases List.mem_append.1 he with he | he
      · exact hinit e he
      · rw [List.mem_singleton.1 he]
        exact Std.right_le_max
    · exact le_latestId uid _
    · exact updateId_le_latestId (List.mem_append_right _ (List.mem_singleton.2 rfl))

end Ascending

/-! ### Replay -/

namespace Book

theorem mem_replayable_iff {uid : UInt64} {ds : List Update} {d : Update} :
    d ∈ replayable uid ds ↔ d ∈ ds ∧ uid < d.updateId := by
  rw [replayable, List.mem_mergeSort, List.mem_filter, decide_eq_true_eq]

/-- The order of ids by which a replay is sorted is transitive. -/
theorem updateId_le_trans (a b c : Update) (hab : decide (a.updateId ≤ b.updateId))
    (hbc : decide (b.updateId ≤ c.updateId)) : decide (a.updateId ≤ c.updateId) :=
  decide_eq_true (UInt64.le_trans (of_decide_eq_true hab) (of_decide_eq_true hbc))

/-- It is total. -/
theorem updateId_le_total (a b : Update) :
    (decide (a.updateId ≤ b.updateId) || decide (b.updateId ≤ a.updateId)) = true := by
  simpa using UInt64.le_total a.updateId b.updateId

/-- A replay goes through the ids in order. -/
theorem replayable_sorted (uid : UInt64) (ds : List Update) :
    (replayable uid ds).Pairwise fun d e => d.updateId ≤ e.updateId := by
  have hsorted : (replayable uid ds).Pairwise fun d e => decide (d.updateId ≤ e.updateId) :=
    List.pairwise_mergeSort updateId_le_trans updateId_le_total _
  exact hsorted.imp fun h => of_decide_eq_true h

/-- Diffs that stand in ascending order are replayed as they stand. -/
theorem replayable_of_ascending {ds : List Update} (h : Ascending ds) (uid : UInt64) :
    replayable uid ds = ds.filter fun d => uid < d.updateId := by
  refine List.mergeSort_of_pairwise ?_
  refine List.Pairwise.imp ?_ (h.sublist List.filter_sublist)
  intro d e hde
  exact decide_eq_true (UInt64.le_of_lt hde)

/-- Diffs in the order of their ids leave the latest id. -/
theorem uid_foldl_applyDiff {ds : List Update} {book : Book}
    (hsorted : ds.Pairwise fun d e => d.updateId ≤ e.updateId)
    (hnewer : ∀ d ∈ ds, book.uid ≤ d.updateId) :
    (ds.foldl applyDiff book).uid = latestId book.uid ds := by
  induction ds generalizing book with
  | nil => rfl
  | cons d ds ih =>
      rw [List.pairwise_cons] at hsorted
      have hmax : max book.uid d.updateId = d.updateId :=
        UInt64.le_antisymm
          (Std.max_le_iff.2 ⟨hnewer d List.mem_cons_self, UInt64.le_rfl⟩) Std.right_le_max
      rw [List.foldl_cons, ih hsorted.2 hsorted.1, uid_applyDiff, latestId_cons, hmax]

/-- **The id of a rebuilt book is the greatest of all the ids at hand.** -/
theorem uid_restore (book : Book) (s : Update) (ds : List Update) :
    (book.restore s ds).uid = latestId s.updateId ds := by
  have hnewer : ∀ d ∈ replayable s.updateId ds, (book.replaceLevels s).uid ≤ d.updateId :=
    fun d hd => UInt64.le_of_lt (mem_replayable_iff.1 hd).2
  rw [restore, uid_foldl_applyDiff (replayable_sorted _ _) hnewer, uid_replaceLevels]
  -- a diff that is not replayed is not beyond the snapshot
  refine UInt64.le_antisymm (latestId_le_iff.2 ⟨le_latestId _ _, ?_⟩)
    (latestId_le_iff.2 ⟨le_latestId _ _, ?_⟩)
  · intro d hd
    exact updateId_le_latestId (mem_replayable_iff.1 hd).1
  · intro d hd
    rcases UInt64.lt_or_le s.updateId d.updateId with hlt | hle
    · exact updateId_le_latestId (mem_replayable_iff.2 ⟨hd, hlt⟩)
    · exact UInt64.le_trans hle (le_latestId _ _)

theorem restore_of_ascending {ds : List Update} (h : Ascending ds) (book : Book) (s : Update) :
    book.restore s ds =
      (ds.filter fun d => s.updateId < d.updateId).foldl applyDiff (book.replaceLevels s) := by
  rw [restore, replayable_of_ascending h]

/-- Levels that diffs have set do not outlast a snapshot. -/
theorem replaceLevels_foldl_applyDiff (book : Book) (ds : List Update) (s : Update) :
    (ds.foldl applyDiff book).replaceLevels s = book.replaceLevels s := by
  induction ds generalizing book with
  | nil => rfl
  | cons d ds ih => exact ih (book.applyDiff d)

/-- The picture that a book shows once it is rebuilt: the snapshot's, with the newer diffs. -/
theorem shows_restore {ds : List Update} (h : Ascending ds) (book : Book) (s : Update) :
    (book.restore s ds).Shows
      ((ds.filter fun d => s.updateId < d.updateId).foldl Picture.update (.ofSnapshot s)) := by
  rw [restore_of_ascending h]
  exact (shows_replaceLevels book s).foldl_applyDiff _

end Book

end MarketDepth
