/-
**Trades among the rest.**

The emitter notes a trade on a book without asking the worker of the instrument, and the worker
handles its messages without asking the emitter.  Neither notices the other.  Which messages are
stale, what a snapshot replays, what is reported: nothing of this is read off the trade figures, and
no message changes them.  So all that the order of the two decides is the order of the events.

Main results:

* `MarketDepth.Book.volume_foldl_applyTrade` — a volume that is cut off at each trade is the sum
  of all sizes, cut off once;
* `MarketDepth.Registration.handle_applyTrade` — a message may be handled before or after a trade;
* `MarketDepth.Reconciler.undergoAll_eq` — **messages first, trades later** comes to the same;
* `MarketDepth.Book.trades_apart_from_depth` — a book after any operations.
-/

import MarketDepth.Proofs.Operations
import MarketDepth.Proofs.Succession

set_option relaxedAutoImplicit false
set_option autoImplicit false

namespace MarketDepth

/-! ### Sums that stop at the largest word -/

theorem toNat_addSaturating (a b : UInt64) :
    (addSaturating a b).toNat = min (2 ^ 64 - 1) (a.toNat + b.toNat) := by
  have ha := a.toNat_lt
  have hb := b.toNat_lt
  have hmax : maxWord.toNat = 2 ^ 64 - 1 := rfl
  have hle : b ≤ maxWord := UInt64.le_iff_toNat_le.2 (by omega)
  have hroom : (maxWord - b).toNat = 2 ^ 64 - 1 - b.toNat := by
    rw [UInt64.toNat_sub_of_le _ _ hle, hmax]
  unfold addSaturating
  split
  next h =>
    rw [UInt64.le_iff_toNat_le, hroom] at h
    rw [UInt64.toNat_add, Nat.mod_eq_of_lt (by omega)]
    omega
  next h =>
    rw [UInt64.le_iff_toNat_le, hroom] at h
    rw [hmax]
    omega

namespace Book

/-! ### Trade figures -/

theorem tradeCount_foldl_applyTrade (book : Book) (es : List Execution) :
    (es.foldl applyTrade book).tradeCount = book.tradeCount + es.length := by
  induction es generalizing book with
  | nil => rfl
  | cons e es ih =>
      rw [List.foldl_cons, ih, List.length_cons]
      change book.tradeCount + 1 + es.length = _
      omega

theorem lastTrade?_foldl_applyTrade (book : Book) (es : List Execution) :
    (es.foldl applyTrade book).lastTrade? = es.getLast?.or book.lastTrade? := by
  rcases List.eq_nil_or_concat es with rfl | ⟨init, e, rfl⟩
  · rfl
  · rw [List.concat_eq_append, List.foldl_concat, List.getLast?_concat]
    rfl

/-- **A volume that is cut off at each trade is the sum of all sizes, cut off once.** -/
theorem volume_foldl_applyTrade (book : Book) (es : List Execution) :
    (es.foldl applyTrade book).volume.toNat =
      min (2 ^ 64 - 1) (book.volume.toNat + (es.map (·.size.toNat)).sum) := by
  induction es generalizing book with
  | nil =>
      have := book.volume.toNat_lt
      simp only [List.foldl_nil, List.map_nil, List.sum_nil]
      omega
  | cons e es ih =>
      rw [List.foldl_cons, ih, applyTrade, toNat_addSaturating, List.map_cons, List.sum_cons]
      omega

end Book

/-! ### A trade and a message -/

/-- A trade may be noted before or after a diff or a snapshot. -/
theorem Book.restore_applyTrade (book : Book) (e : Execution) (s : Update) (ds : List Update) :
    (book.applyTrade e).restore s ds = (book.restore s ds).applyTrade e :=
  calc (book.applyTrade e).restore s ds
      = (book.applyTrade e).withDepthOf (book.restore s ds) :=
        restore_withDepthOf (book.applyTrade e) book s ds
    _ = (book.withDepthOf (book.restore s ds)).applyTrade e := rfl
    _ = (book.restore s ds).applyTrade e :=
        congrArg (·.applyTrade e) (restore_withDepthOf book book s ds).symm

namespace Reconciler

variable (r : Reconciler) (e : Execution)

/-- Whether a diff is stale is not a matter of trades. -/
theorem applyDiff?_undergo_traded (d : Update) :
    (r.undergo (.traded e)).applyDiff? d = (r.applyDiff? d).map (·.undergo (.traded e)) := by
  have hstale : (r.undergo (.traded e)).isStale d = r.isStale d := rfl
  unfold applyDiff?
  rw [hstale]
  cases r.isStale d with
  | true => rfl
  | false => rfl

theorem restore_undergo_traded (s : Update) :
    (r.undergo (.traded e)).restore s = (r.restore s).undergo (.traded e) :=
  congrArg (fun book => { r with book }) (r.book.restore_applyTrade e s r.window.diffs)

theorem handle_undergo_traded (m : Message) :
    (r.undergo (.traded e)).handle m = (r.handle m).undergo (.traded e) := by
  cases m with
  | diff d =>
      rw [handle, applyDiff?_undergo_traded]
      exact Option.getD_map (·.undergo (.traded e)) r (r.applyDiff? d)
  | snapshot s => exact restore_undergo_traded r e s
  | trade t => rfl

end Reconciler

namespace Registration

variable (r : Registration) (e : Execution) (statsInterval now : Nat)

theorem handleDiff_applyTrade (d : Update) :
    (r.applyTrade e).handleDiff statsInterval now d =
      ((r.handleDiff statsInterval now d).1.applyTrade e,
        (r.handleDiff statsInterval now d).2) := by
  have hdiff : (r.applyTrade e).reconciler.applyDiff? d =
      (r.reconciler.applyDiff? d).map (·.undergo (.traded e)) :=
    r.reconciler.applyDiff?_undergo_traded e d
  have hreport : (r.applyTrade e).tally.accept.takeReport statsInterval now =
      r.tally.accept.takeReport statsInterval now := rfl
  unfold handleDiff
  rw [hdiff]
  cases r.reconciler.applyDiff? d with
  | none => rfl
  | some reconciler =>
      simp only [Option.map_some, hreport]
      rcases r.tally.accept.takeReport statsInterval now with ⟨_ | ⟨applied, stale⟩, tally⟩
      · rfl
      · rfl

theorem handleSnapshot_applyTrade (s : Update) :
    (r.applyTrade e).handleSnapshot s =
      ((r.handleSnapshot s).1.applyTrade e, (r.handleSnapshot s).2) := by
  have hrestore : (r.applyTrade e).reconciler.restore s =
      (r.reconciler.restore s).undergo (.traded e) :=
    r.reconciler.restore_undergo_traded e s
  simp only [handleSnapshot, hrestore]
  rfl

/-- **The worker and the emitter do not get into each other's way.** -/
theorem handle_applyTrade (m : Message) :
    (r.applyTrade e).handle statsInterval now m =
      (r.handle statsInterval now m).map fun done => (done.1.applyTrade e, done.2) := by
  cases m with
  | diff d => exact congrArg Except.ok (handleDiff_applyTrade r e statsInterval now d)
  | snapshot s => exact congrArg Except.ok (handleSnapshot_applyTrade r e s)
  | trade t => rfl

end Registration

/-! ### The emitter and the worker -/

namespace Reconciler

theorem handleAll_undergo_traded (r : Reconciler) (e : Execution) (ms : List Message) :
    (r.undergo (.traded e)).handleAll ms = (r.handleAll ms).undergo (.traded e) :=
  List.foldl_hom (fun r : Reconciler => r.undergo (.traded e)) fun r m => handle_undergo_traded r e m

/-- **Messages first, trades later** comes to the same. -/
theorem undergoAll_eq (r : Reconciler) (deeds : List Deed) :
    r.undergoAll deeds = (r.handleAll (deeds.filterMap Deed.message?)).undergoAll
      ((deeds.filterMap Deed.execution?).map .traded) := by
  induction deeds generalizing r with
  | nil => rfl
  | cons deed deeds ih =>
      cases deed with
      | handled m => exact ih (r.handle m)
      | traded e =>
          change (r.undergo (.traded e)).undergoAll deeds = _
          rw [ih, handleAll_undergo_traded]
          rfl

end Reconciler

namespace Book

/-- **Trades and depth do not interfere.**  Operations in any order leave the levels and the id that
they leave without the trades among them, and the trade figures that the trades alone leave: the
count grows by their number, the volume by their sizes up to the largest word, and the last trade
is the last of them.  So operations that differ only in how trades are mixed with the rest leave
the same book.  Worker and emitter never depend on which of them is first: a message finds and
reports the same before and after a trade, and what they do in any order leaves the book and the
window that the same messages and the same trades leave in any other. -/
theorem trades_apart_from_depth (book : Book) (ops : List Operation) :
    book.performAll ops =
      (book.performAll ((executions ops).map .applyTrade)).withDepthOf
        (book.performAll (withoutTrades ops)) ∧
    (book.performAll ops).tradeCount = book.tradeCount + (executions ops).length ∧
    (book.performAll ops).volume.toNat =
      min (2 ^ 64 - 1) (book.volume.toNat + ((executions ops).map (·.size.toNat)).sum) ∧
    (book.performAll ops).lastTrade? = (executions ops).getLast?.or book.lastTrade? ∧
    (∀ ops', executions ops' = executions ops → withoutTrades ops' = withoutTrades ops →
      book.performAll ops' = book.performAll ops) ∧
    (∀ (r : Registration) (e : Execution) (statsInterval now : Nat) (m : Message),
      (r.applyTrade e).handle statsInterval now m =
        (r.handle statsInterval now m).map fun done => (done.1.applyTrade e, done.2)) ∧
    ∀ (r : Reconciler) (deeds deeds' : List Deed),
      deeds'.filterMap Deed.message? = deeds.filterMap Deed.message? →
      deeds'.filterMap Deed.execution? = deeds.filterMap Deed.execution? →
      r.undergoAll deeds' = r.undergoAll deeds := by
  have hops := performAll_eq book ops
  have htrades : book.performAll ((executions ops).map .applyTrade) =
      (executions ops).foldl applyTrade book :=
    List.foldl_map
  refine ⟨htrades ▸ hops, ?count, ?volume, ?last, ?mixed, Registration.handle_applyTrade, ?order⟩
  case count =>
    rw [hops]
    exact tradeCount_foldl_applyTrade book _
  case volume =>
    rw [hops]
    exact volume_foldl_applyTrade book _
  case last =>
    rw [hops]
    exact lastTrade?_foldl_applyTrade book _
  case mixed =>
    intro ops' hexecutions hrest
    rw [performAll_eq book ops', hexecutions, hrest, ← hops]
  case order =>
    intro r deeds deeds' hmessages hexecutions
    rw [r.undergoAll_eq deeds', hmessages, hexecutions, ← r.undergoAll_eq deeds]

/-- Two trades among a diff and a snapshot fill up the volume, wherever they stand. -/
theorem trades_apart_from_depth_in_two_orders :
    let book : Book := { instrument := "A", uid := 3, volume := maxWord - 1 }
    let d : Update :=
      { instrument := "A", updateId := 5, timestamp := 0, bids := [⟨10, 2⟩, ⟨11, 4⟩] }
    let s : Update := { instrument := "A", updateId := 4, timestamp := 0, asks := [⟨12, 1⟩] }
    let e : Execution := { timestamp := 1, price := 12, size := 3, side := .buy }
    let e' : Execution := { timestamp := 2, price := 11, size := 9, side := .sell }
    let ops : List Operation := [.applyTrade e, .applyDiff d, .restore s [d], .applyTrade e']
    let ops' : List Operation := [.applyDiff d, .applyTrade e, .applyTrade e', .restore s [d]]
    let deeds : List Deed := [.traded e, .handled (.diff d), .handled (.snapshot s), .traded e']
    let deeds' : List Deed := [.handled (.diff d), .traded e, .traded e', .handled (.snapshot s)]
    let r : Reconciler := .start book 2
    executions ops' = executions ops ∧ withoutTrades ops' = withoutTrades ops ∧
    book.performAll ops' = book.performAll ops ∧ (book.performAll ops).volume = maxWord ∧
    (book.performAll ops).lastTrade? = some e' ∧
    (book.performAll ops).bids.levels = [⟨11, 4⟩, ⟨10, 2⟩] ∧
    r.undergoAll deeds' = r.undergoAll deeds ∧ (r.undergoAll deeds).book = book.performAll ops := by
  intro book d s e e' ops ops' deeds deeds' r
  obtain ⟨-, -, hvolume, hlast, hmixed, -, horder⟩ := trades_apart_from_depth book ops
  have hexecutions : executions ops' = executions ops := rfl
  have hrest : withoutTrades ops' = withoutTrades ops := rfl
  have hfull : (book.performAll ops).volume = maxWord := UInt64.toNat_inj.1 hvolume
  have hlevels : (book.performAll ops).bids.levels = [⟨11, 4⟩, ⟨10, 2⟩] := by cbv
  have hbook : (r.undergoAll deeds).book = book.performAll ops := by cbv
  exact ⟨hexecutions, hrest, hmixed ops' hexecutions hrest, hfull, hlast, hlevels,
    horder r deeds deeds' rfl rfl, hbook⟩

end Book

end MarketDepth
