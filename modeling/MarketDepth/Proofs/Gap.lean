/-
**The mark that asks for a snapshot.**

A message that finds a queue full is lost, and the book has a gap until a snapshot closes it.  The
mark of a registration is set by such a loss and cleared by the next snapshot that its worker
applies, whatever the snapshot's id: so the mark is set exactly while no snapshot has been applied
since the last loss.  A snapshot that was queued before the loss clears it as well, and then the
gap is still open.

Main definitions:

* `MarketDepth.Fate.Awaits` — a loss, and no snapshot applied since.

Main results:

* `MarketDepth.Registration.marked_change` — every change keeps the mark true to the past;
* `MarketDepth.Tracker.resyncPending_iff_of_moves` — **when the mark is set**, and that a loss
  which finds it clear publishes the instrument;
* `MarketDepth.Tracker.not_marked_until_covered` — it need not stay until a snapshot covers the lost
  diff.
-/

import MarketDepth.Proofs.Local
import MarketDepth.Proofs.Queue

set_option relaxedAutoImplicit false
set_option autoImplicit false

namespace MarketDepth

/-! ### Losses and snapshots -/

namespace Fate

/-- A message was lost, and since then the worker has applied no snapshot. -/
def Awaits (past : List Fate) : Prop :=
  ∃ before m after, past = before ++ .lost m :: after ∧
    ∀ s uid, .handled (.snapshot s) uid ∉ after

theorem awaits_concat_lost (past : List Fate) (m : Message) : Awaits (past ++ [.lost m]) :=
  ⟨past, m, [], rfl, fun _ _ h => absurd h List.not_mem_nil⟩

theorem not_awaits_nil : ¬ Awaits [] := by
  rintro ⟨before, m, after, h, -⟩
  simp at h

/-- What is last in a list with a loss is the loss or comes after it. -/
theorem awaits_concat_iff {past : List Fate} {fate : Fate} (h : ∀ m, fate ≠ .lost m) :
    Awaits (past ++ [fate]) ↔ Awaits past ∧ ∀ s uid, fate ≠ .handled (.snapshot s) uid := by
  constructor
  · rintro ⟨before, m, after, hpast, hafter⟩
    rcases List.eq_nil_or_concat after with rfl | ⟨after, last, rfl⟩
    · -- the loss is not the last fate
      have hlast := (List.append_inj' hpast rfl).2
      exact absurd (List.cons.inj hlast).1 (h m)
    · rw [List.concat_eq_append, ← List.cons_append, ← List.append_assoc] at hpast
      obtain ⟨hinit, hlast⟩ := List.append_inj' hpast rfl
      obtain rfl := (List.cons.inj hlast).1
      refine ⟨⟨before, m, after, hinit, ?_⟩, ?_⟩
      · intro s uid hs
        exact hafter s uid (by simp [hs])
      · rintro s uid rfl
        exact hafter s uid (by simp)
  · rintro ⟨⟨before, m, after, rfl, hafter⟩, hfate⟩
    refine ⟨before, m, after ++ [fate], by simp, ?_⟩
    intro s uid hs
    rcases List.mem_append.1 hs with hs | hs
    · exact hafter s uid hs
    · exact hfate s uid (List.mem_singleton.1 hs).symm

end Fate

namespace Registration

/-- The mark is set while a snapshot is awaited. -/
def Marked (past : List Fate) (r : Registration) : Prop :=
  r.resyncPending = true ↔ Fate.Awaits past

theorem marked_start (serial : Nat) (instrument : String) (book : Book) (windowSize now : Nat)
    (live : Bool) : (start serial instrument book windowSize now live).Marked [] :=
  ⟨fun h => absurd h Bool.false_ne_true, fun h => absurd h Fate.not_awaits_nil⟩

/-- **Every change keeps the mark true to the past.** -/
theorem marked_change {past : List Fate} {config : Config} {instrument : String}
    {r r' : Registration} {fate : Option Fate} (h : r.Marked past)
    (hchange : r.Change config instrument fate r') : r'.Marked (past ++ fate.toList) := by
  cases hchange with
  | keep => simpa using h
  | stale =>
      refine h.trans ?_
      rw [Option.toList_some, Fate.awaits_concat_iff (by simp)]
      simp
  | queue =>
      refine h.trans ?_
      rw [Option.toList_some, Fate.awaits_concat_iff (by simp)]
      simp
  | @lose m => exact ⟨fun _ => Fate.awaits_concat_lost past m, fun _ => rfl⟩
  | @handle m inbox next now =>
      -- a snapshot ends the wait and clears the mark, a diff does neither
      rw [Marked, resyncPending_after, Option.toList_some, Fate.awaits_concat_iff (by simp)]
      unfold Marked at h
      rw [← h]
      cases m <;> simp
  | trade => simpa [Marked, applyTrade] using h
  | kill => simpa [Marked, Registration.kill] using h

end Registration

/-! ### Runs -/

namespace Tracker

/-- **The mark is set exactly while no snapshot has been applied since a loss,** in whatever order
tasks act and whatever happens outside; and a loss that finds it clear sets it and publishes the
instrument. -/
theorem resyncPending_iff_of_moves {config : Config} {directory : Directory} {t : Tracker}
    (h : new config directory = .ok t) (as : List Move) {instrument : String} {r : Registration}
    (registered : (t.moves as).board.find? instrument = some r) :
    (r.resyncPending = true ↔ Fate.Awaits (t.fates instrument r.serial as)) ∧
    ∀ m checkAge, m.instrument = instrument →
      ((t.moves as).board.offer m checkAge).1 = .overflow →
      ((t.moves as).board.offer m checkAge).2.find? instrument =
          some { r with resyncPending := true } ∧
        (r.resyncPending = false →
          ((t.moves as).board.offer m checkAge).2.resyncs =
            (t.moves as).board.resyncs ++ [instrument]) := by
  have hstart : t.board = .start config := congrArg (·.board) (eq_of_new h)
  constructor
  · have hr := registered
    rw [board_moves_of_new h as] at hr
    rw [fates, hstart]
    exact Board.history_induction (P := Registration.Marked)
      (fun serial book now live => Registration.marked_start serial instrument book _ now live)
      (fun _ _ _ _ hr hchange => Registration.marked_change hr hchange) hr
  · rintro m checkAge rfl hoverflow
    refine ⟨Board.find?_offer_of_overflow registered hoverflow, ?_⟩
    intro hclear
    rw [Board.offer_of_overflow registered hoverflow, Board.resyncs_overflow,
      if_pos (.inl hclear)]

/-- Two lost diffs and the snapshot 1 that was queued before them: at first the mark is set, and
the snapshot clears it. -/
theorem resyncPending_iff_of_moves_past_queued_snapshot :
    let config : Config := { queueCapacity := 1 }
    let update (id : UInt64) : Update := { instrument := "A", updateId := id, timestamp := 0 }
    let listing : Listing := { instrument := "A", timestamp := 0, book := .empty "A" }
    let directory : Directory := { catalog := .ofListings [listing] }
    let t : Tracker := { board := .start config, directory }
    let lost : List Move := [.start 0, .perform 0 .refresher,
      .send [(.snapshot, .snapshot (update 1)), (.diff, .diff (update 5)),
        (.diff, .diff (update 6))],
      .perform 0 .snapshotRouter, .perform 0 .diffRouter, .perform 0 .diffRouter]
    let applied : List Move := lost ++ [.perform 0 (.worker "A" 0)]
    new config directory = .ok t ∧
    (∃ r, (t.moves lost).board.find? "A" = some r ∧ Fate.Awaits (t.fates "A" r.serial lost)) ∧
    ∃ r, (t.moves applied).board.find? "A" = some r ∧
      ¬ Fate.Awaits (t.fates "A" r.serial applied) := by
  intro config update listing directory t lost applied
  have hnew : new config directory = .ok t := rfl
  have hlost : ((t.moves lost).board.find? "A").map (·.resyncPending) = some true := by
    unfold t
    cbv
  have happlied : ((t.moves applied).board.find? "A").map (·.resyncPending) = some false := by
    unfold t
    cbv
  obtain ⟨r, hr, hset⟩ := Option.map_eq_some_iff.1 hlost
  obtain ⟨r', hr', hclear⟩ := Option.map_eq_some_iff.1 happlied
  refine ⟨hnew, ⟨r, hr, (resyncPending_iff_of_moves hnew lost hr).1.1 hset⟩, r', hr', ?_⟩
  intro hawaits
  have hset' := (resyncPending_iff_of_moves hnew applied hr').1.2 hawaits
  rw [hclear] at hset'
  cases hset'

/-- **A snapshot that is older than a lost diff clears the mark,** here one that was queued before
the diff was lost: so the mark does not stay until a snapshot covers the diff. -/
theorem not_marked_until_covered :
    ¬ ∀ (config : Config) (directory : Directory) (t : Tracker) (as : List Move)
        (instrument : String) (r : Registration) (before after : List Fate) (d : Update),
      new config directory = .ok t →
      (t.moves as).board.find? instrument = some r →
      t.fates instrument r.serial as = before ++ .lost (.diff d) :: after →
      r.resyncPending = false →
      ∃ s uid, .handled (.snapshot s) uid ∈ after ∧ d.updateId ≤ s.updateId := by
  intro hall
  let config : Config := { queueCapacity := 1 }
  let update (id : UInt64) : Update := { instrument := "A", updateId := id, timestamp := 0 }
  let listing : Listing := { instrument := "A", timestamp := 0, book := .empty "A" }
  let directory : Directory := { catalog := .ofListings [listing] }
  let t : Tracker := { board := .start config, directory }
  let as : List Move := [.start 0, .perform 0 .refresher,
    .send [(.snapshot, .snapshot (update 1)), (.diff, .diff (update 5))],
    .perform 0 .snapshotRouter, .perform 0 .diffRouter, .perform 0 (.worker "A" 0)]
  have hnew : new config directory = .ok t := rfl
  have hfates : t.fates "A" 0 as = [.queued (.snapshot (update 1))] ++
      .lost (.diff (update 5)) :: [.handled (.snapshot (update 1)) 0] := by
    unfold t
    cbv
  have hfound : ((t.moves as).board.find? "A").map (fun r => (r.serial, r.resyncPending)) =
      some (0, false) := by
    unfold t
    cbv
  obtain ⟨r, hr, hflag⟩ := Option.map_eq_some_iff.1 hfound
  rw [Prod.mk.injEq] at hflag
  rw [← hflag.1] at hfates
  obtain ⟨s, uid, hs, hle⟩ := hall config directory t as "A" r _ _ _ hnew hr hfates hflag.2
  -- the only snapshot applied since is the one with the id 1
  rw [List.mem_singleton, Fate.handled.injEq, Message.snapshot.injEq] at hs
  rw [hs.1] at hle
  revert hle
  decide

end Tracker

end MarketDepth
