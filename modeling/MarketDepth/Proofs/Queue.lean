/-
**The queues.**

Between the routers and a worker there is a queue with room for so many messages.  The routers work
on all queues at once, registrations come and go, and messages are lost when a queue is full; but
seen from one live registration, what was put into its queue is what has been taken out followed by
what waits, and all of it came from the streams in the order in which it was sent.

Main definitions:

* `MarketDepth.Board.QueueLaw` — **the law of the queue of a live registration.**

Main results:

* `MarketDepth.Registration.inOrder_change` — every change keeps the messages of a queue in order;
* `MarketDepth.Board.queued_sublist_taken` — what is queued comes from the stream of its kind;
* `MarketDepth.Tracker.queueLaw_of_moves` — **the law holds whatever a tracker does.**
-/

import MarketDepth.Proofs.Streams

set_option relaxedAutoImplicit false
set_option autoImplicit false

namespace MarketDepth

/-! ### First in, first out -/

namespace Registration

/-- While the worker lives, what was queued is what it has handled, followed by what waits. -/
def InOrder (past : List Fate) (r : Registration) : Prop :=
  r.live = true → past.filterMap Fate.queued? = past.filterMap Fate.handled? ++ r.inbox

theorem inOrder_start (serial : Nat) (instrument : String) (book : Book) (windowSize now : Nat)
    (live : Bool) : (start serial instrument book windowSize now live).InOrder [] :=
  fun _ => rfl

/-- **Every change keeps the messages of a queue in order.** -/
theorem inOrder_change {past : List Fate} {config : Config} {instrument : String}
    {r r' : Registration} {fate : Option Fate} (h : r.InOrder past)
    (hchange : r.Change config instrument fate r') : r'.InOrder (past ++ fate.toList) := by
  intro live
  have hr := h (hchange.live_of_live live)
  -- a step adds at most one fate to the past
  have hpast : ∀ f : Fate → Option Message,
      (past ++ fate.toList).filterMap f = past.filterMap f ++ (fate.bind f).toList := by
    intro f
    rw [List.filterMap_append, filterMap_toList]
  rw [hpast, hpast]
  cases hchange with
  | keep => simpa using hr
  | stale => simpa [Fate.queued?, Fate.handled?] using hr
  | queue => simp [Fate.queued?, Fate.handled?, hr]
  | lose => simpa [Fate.queued?, Fate.handled?] using hr
  | @handle m inbox next now =>
      obtain ⟨_, _, _, hafter⟩ := after_frame { r with inbox } config.statsInterval (now, m)
      have hinbox : ({ r with inbox }.after config.statsInterval (now, m)).inbox = inbox := by
        rw [hafter]
      rw [next] at hr
      simpa [Fate.queued?, Fate.handled?, hinbox] using hr
  | trade => simpa [applyTrade] using hr
  | kill => cases live

end Registration

/-! ### Where queued messages come from -/

namespace Board

variable {instrument : String} {serial : Nat}

theorem ofAnswer?_eq_queued {m m' : Message} {answer : Except Fault Offer}
    (h : Fate.ofAnswer? m' answer = some (.queued m)) : m' = m ∧ answer = .ok .queued := by
  unfold Fate.ofAnswer? at h
  split at h <;> simp_all

/-- A message that is queued is taken from the stream of its kind in the same step. -/
theorem taken?_of_queued {b : Board} {s : Step} {m : Message}
    (h : b.fate? instrument serial s = some (.queued m)) : s.taken? m.kind = some m := by
  obtain ⟨r, hr, hfate⟩ := Option.bind_eq_some_iff.1 h
  split at hfate
  case isFalse => cases hfate
  case isTrue =>
    cases s with
    | routeDiff now m' =>
        simp only [fateAt?] at hfate
        split at hfate
        case isFalse => cases hfate
        case isTrue =>
          obtain ⟨rfl, hanswer⟩ := ofAnswer?_eq_queued hfate
          by_cases hkind : m'.kind = .diff
          · simp [Step.taken?, hkind]
          · rw [routeDiff_of_kind_ne hkind] at hanswer
            cases hanswer
    | routeSnapshot m' =>
        simp only [fateAt?] at hfate
        split at hfate
        case isFalse => cases hfate
        case isTrue =>
          obtain ⟨rfl, hanswer⟩ := ofAnswer?_eq_queued hfate
          by_cases hkind : m'.kind = .snapshot
          · simp [Step.taken?, hkind]
          · rw [routeSnapshot_of_kind_ne hkind] at hanswer
            cases hanswer
    | work now worker =>
        simp only [fateAt?] at hfate
        split at hfate
        · obtain ⟨m', -, hm'⟩ := Option.map_eq_some_iff.1 hfate
          cases hm'
        · cases hfate
    | _ => cases hfate

/-- **The queued messages of a kind come from its stream,** in the order in which they are taken
from it. -/
theorem queued_sublist_taken (kind : Kind) (b : Board) (steps : List Step) :
    (((b.fates instrument serial steps).filterMap Fate.queued?).filter (·.kind = kind)).Sublist
      (taken kind steps) := by
  induction steps generalizing b with
  | nil => exact .refl _
  | cons s steps ih =>
      rw [fates, List.filterMap_append, List.filter_append, taken_cons]
      -- the first step queues nothing of this kind, or just what it takes
      refine .append ?_ (ih (b.take s))
      cases hfate : b.fate? instrument serial s with
      | none => exact List.nil_sublist _
      | some fate =>
          cases fate with
          | queued m =>
              by_cases hkind : m.kind = kind
              · have htaken := taken?_of_queued hfate
                rw [hkind] at htaken
                simp [htaken, Fate.queued?, hkind]
              · simp [Fate.queued?, hkind]
          | _ => exact List.nil_sublist _

/-! ### The law -/

/-- **The law of the queue of a live registration,** with the fates of its messages so far and the
messages that the two streams were sent. -/
structure QueueLaw (b : Board) (instrument : String) (r : Registration) (past : List Fate)
    (diffs snapshots : List Message) : Prop where
  /-- What was queued is what has been handled, followed by what waits: nothing is lost, doubled
  or out of order. -/
  inOrder : past.filterMap Fate.queued? = past.filterMap Fate.handled? ++ r.inbox
  room : r.inbox.length ≤ b.config.queueCapacity
  /-- A message that is not turned away for its age overflows exactly when the queue is full. -/
  overflow_iff : ∀ m checkAge, m.instrument = instrument →
    ((b.offer m checkAge).1 = .overflow ↔
      (checkAge && m.updateId?.any (· ≤ r.book.uid)) = false ∧
        r.inbox.length = b.config.queueCapacity)
  /-- An overflow leaves all as it was, but for the mark. -/
  overflow_keeps : ∀ m checkAge, m.instrument = instrument →
    (b.offer m checkAge).1 = .overflow →
      (b.offer m checkAge).2.find? instrument = some { r with resyncPending := true }
  diffs_inOrder : ((past.filterMap Fate.queued?).filter (·.kind = .diff)).Sublist diffs
  snapshots_inOrder : ((past.filterMap Fate.queued?).filter (·.kind = .snapshot)).Sublist snapshots
  addressed : ∀ m ∈ r.inbox, m.instrument = instrument ∧ (m.kind = .diff ∨ m.kind = .snapshot)
  /-- So the worker does not meet a message that it cannot handle. -/
  handles : ∀ now, (b.work now instrument).1 = none

/-- A live registration answers an offer by its book and by its queue. -/
theorem overflow_iff_of_proper {b : Board} {r : Registration} {m : Message}
    (hr : b.find? m.instrument = some r) (proper : r.Proper b.config m.instrument)
    (live : r.live = true) (checkAge : Bool) :
    (b.offer m checkAge).1 = .overflow ↔
      (checkAge && m.updateId?.any (· ≤ r.book.uid)) = false ∧
        r.inbox.length = b.config.queueCapacity := by
  have hroom := proper.room
  rw [offer_of_find? hr]
  split
  case isTrue hold => simp [hold]
  case isFalse hfresh =>
    rw [if_neg (by simp [live])]
    split
    case isTrue hlt =>
      simp only [reduceCtorEq, false_iff, not_and]
      omega
    case isFalse hle =>
      simp only [true_iff]
      exact ⟨by simpa using hfresh, by omega⟩

/-- An offer that overflows only counts the loss, sets the mark and publishes. -/
theorem offer_of_overflow {b : Board} {r : Registration} {m : Message}
    (hr : b.find? m.instrument = some r) {checkAge : Bool}
    (h : (b.offer m checkAge).1 = .overflow) : (b.offer m checkAge).2 = b.overflow r m := by
  rw [offer_of_find? hr] at h ⊢
  split at h
  case isTrue => cases h
  case isFalse hfresh =>
    split at h
    case isTrue => cases h
    case isFalse hlive =>
      split at h
      case isTrue => cases h
      case isFalse hfull => rw [if_neg hfresh, if_neg hlive, if_neg hfull]

theorem find?_offer_of_overflow {b : Board} {r : Registration} {m : Message}
    (hr : b.find? m.instrument = some r) {checkAge : Bool}
    (h : (b.offer m checkAge).1 = .overflow) :
    (b.offer m checkAge).2.find? m.instrument = some { r with resyncPending := true } := by
  rw [offer_of_overflow hr h, find?_overflow, if_pos rfl, hr]
  rfl

/-- The worker of a proper registration handles whatever comes first. -/
theorem work_eq_none_of_proper {b : Board} {r : Registration} (hr : b.find? instrument = some r)
    (proper : r.Proper b.config instrument) (now : Nat) : (b.work now instrument).1 = none := by
  cases hm : r.inbox with
  | nil => rw [work_of_inbox_eq_nil hr hm]
  | cons m inbox =>
      have hkind := (proper.addressed m (by rw [hm]; exact List.mem_cons_self)).2
      simp only [work, hr, hm]
      cases m with
      | diff d => rfl
      | snapshot s => rfl
      | trade t => exact absurd rfl hkind

end Board

namespace Tracker

/-- **The law of the queue holds whatever a tracker does.**  Let tasks act in any order, and let
anything happen outside, messages and cycles and lost workers included: for every registration
whose worker lives, what was queued since its beginning is what has been handled followed by what
waits, within the bound, and it came from the streams in the order in which it was sent. -/
theorem queueLaw_of_moves {config : Config} {directory : Directory} {t : Tracker}
    (h : new config directory = .ok t) (as : List Move) {instrument : String} {r : Registration}
    (registered : (t.moves as).board.find? instrument = some r) (live : r.live = true) :
    (t.moves as).board.config = config ∧
    (t.moves as).board.QueueLaw instrument r (t.fates instrument r.serial as) (sent .diff as)
      (sent .snapshot as) := by
  have hstart : t.board = .start config := congrArg (·.board) (eq_of_new h)
  have hboard := board_moves_of_new h as
  have hconfig : (t.moves as).board.config = config := config_moves_of_new h as
  -- the board was reached by the steps of the trace, so the laws of runs hold of it
  have hr := registered
  rw [hboard] at hr
  have hproper : r.Proper (t.moves as).board.config instrument := by
    rw [hconfig]
    exact Board.proper_of_find? hr
  have horder : r.InOrder (t.fates instrument r.serial as) := by
    rw [fates, hstart]
    exact Board.history_induction (P := Registration.InOrder)
      (fun serial book now live => Registration.inOrder_start serial instrument book _ now live)
      (fun _ _ _ _ hr hchange => Registration.inOrder_change hr hchange) hr
  have hsent : ∀ kind, (((t.fates instrument r.serial as).filterMap Fate.queued?).filter
      (·.kind = kind)).Sublist (sent kind as) := by
    intro kind
    have htaken := taken_sublist_sent h kind as
    exact ((Board.queued_sublist_taken kind t.board (t.trace as)).trans
      (List.sublist_append_left _ _)).trans htaken
  refine ⟨hconfig, ?_⟩
  constructor
  case inOrder => exact horder live
  case room => exact hproper.room
  case overflow_iff =>
    rintro m checkAge rfl
    exact Board.overflow_iff_of_proper registered hproper live checkAge
  case overflow_keeps =>
    rintro m checkAge rfl hoverflow
    exact Board.find?_offer_of_overflow registered hoverflow
  case diffs_inOrder => exact hsent .diff
  case snapshots_inOrder => exact hsent .snapshot
  case addressed =>
    intro m hm
    obtain ⟨hinstrument, hkind⟩ := hproper.addressed m hm
    refine ⟨hinstrument, ?_⟩
    cases hk : m.kind with
    | diff => exact .inl rfl
    | snapshot => exact .inr rfl
    | trade => exact absurd hk hkind
  case handles => exact Board.work_eq_none_of_proper registered hproper

/-- With room for two messages: of two diffs, a snapshot and another diff, the last one is lost,
since only one has been handled by then. -/
theorem queueLaw_of_moves_with_a_lost_diff :
    let config : Config := { windowSize := 2, queueCapacity := 2 }
    let update (id : UInt64) : Update := { instrument := "A", updateId := id, timestamp := 0 }
    let listing : Listing :=
      { instrument := "A", timestamp := 0, book := .ofSnapshot (update 10) }
    let directory : Directory := { catalog := .ofListings [listing] }
    let t : Tracker := { board := .start config, directory }
    let as : List Move := [.start 0, .perform 0 .refresher,
      .send [(.diff, .diff (update 11)), (.diff, .diff (update 12)),
        (.snapshot, .snapshot (update 12)), (.diff, .diff (update 13))],
      .perform 0 .diffRouter, .perform 0 .diffRouter, .perform 0 (.worker "A" 0),
      .perform 0 .snapshotRouter, .perform 0 .diffRouter]
    new config directory = .ok t ∧
    t.fates "A" 0 as = [.queued (.diff (update 11)), .queued (.diff (update 12)),
      .handled (.diff (update 11)) 10, .queued (.snapshot (update 12)),
      .lost (.diff (update 13))] ∧
    ∃ r, (t.moves as).board.find? "A" = some r ∧ r.live = true ∧
      r.inbox = [.diff (update 12), .snapshot (update 12)] ∧
      (t.moves as).board.QueueLaw "A" r (t.fates "A" r.serial as) (sent .diff as)
        (sent .snapshot as) := by
  intro config update listing directory t as
  have hnew : new config directory = .ok t := rfl
  have hfates : t.fates "A" 0 as = [.queued (.diff (update 11)), .queued (.diff (update 12)),
      .handled (.diff (update 11)) 10, .queued (.snapshot (update 12)),
      .lost (.diff (update 13))] := by
    unfold t
    cbv
  have hfound : ((t.moves as).board.find? "A").map (fun r => (r.live, r.inbox)) =
      some (true, [.diff (update 12), .snapshot (update 12)]) := by
    unfold t
    cbv
  obtain ⟨r, hr, hlive⟩ := Option.map_eq_some_iff.1 hfound
  rw [Prod.mk.injEq] at hlive
  exact ⟨hnew, hfates, r, hr, hlive.1, hlive.2, (queueLaw_of_moves hnew as hr hlive.1).2⟩

end Tracker

end MarketDepth
