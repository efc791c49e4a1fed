/-
**One registration after the other.**

An instrument can be retired and registered again, and each of its registrations has a queue, a
window and a book of its own.  None of them passes anything on to the next.  A registration begins
with an entry of the directory; what is done to its book from then on is done by its worker, with
the messages that were put into its own queue since, and by the emitter, with the trades that were
emitted since.  And when it is gone, its book rests, and what waited in its queue is handled by
nobody.

Main definitions:

* `MarketDepth.Deed`, `MarketDepth.Board.deeds` — **what is done to the book of a registration**;
* `MarketDepth.Reconciler.undergo` — book and window after a deed;
* `MarketDepth.Board.Descends` — **how a registration has come from the one that it began as.**

Main results:

* `MarketDepth.Board.handled_prefix_queued` — a worker handles what was queued for it, in order;
* `MarketDepth.Board.exists_birth` — every registration began with an entry of a look-up;
* `MarketDepth.Tracker.done_of_replaced` — what a cycle takes away is done with;
* `MarketDepth.Tracker.registrations_apart` — **old and new registrations of an instrument have
  nothing to do with each other.**
-/

import MarketDepth.Proofs.Books
import MarketDepth.Proofs.Cycles
import MarketDepth.Proofs.Queue
import MarketDepth.Proofs.Shortcut

set_option relaxedAutoImplicit false
set_option autoImplicit false

namespace MarketDepth

open Board (Step)

/-! ### What is done to a book -/

/-- What is done to the book of a registration. -/
inductive Deed where
  /-- The worker handles a message. -/
  | handled (m : Message)
  /-- The emitter notes a trade. -/
  | traded (execution : Execution)
  deriving DecidableEq

namespace Deed

/-- The message, if the worker handles one. -/
def message? : Deed → Option Message
  | handled m => some m
  | traded _ => none

/-- The execution, if a trade is noted. -/
def execution? : Deed → Option Execution
  | handled _ => none
  | traded execution => some execution

end Deed

/-- The execution that a message tells of, if it is a trade of the instrument. -/
def Message.executionOf? (instrument : String) : Message → Option Execution
  | .trade t => if t.instrument = instrument then some t.execution else none
  | _ => none

namespace Reconciler

/-- **Book and window after a deed.** -/
def undergo (r : Reconciler) : Deed → Reconciler
  | .handled m => r.handle m
  | .traded execution => { r with book := r.book.applyTrade execution }

/-- Book and window after a list of deeds. -/
def undergoAll (r : Reconciler) (deeds : List Deed) : Reconciler :=
  deeds.foldl undergo r

theorem undergoAll_append (r : Reconciler) (deeds deeds' : List Deed) :
    r.undergoAll (deeds ++ deeds') = (r.undergoAll deeds).undergoAll deeds' :=
  List.foldl_append

theorem untraded_handleAll (r : Reconciler) (ms : List Message) :
    (r.handleAll ms).untraded = r.untraded.handleAll ms :=
  (List.foldl_hom untraded fun r m => (untraded_handle r m).symm).symm

/-- Trades come between the messages without changing what these do. -/
theorem untraded_undergoAll (r : Reconciler) (deeds : List Deed) :
    (r.undergoAll deeds).untraded = r.untraded.handleAll (deeds.filterMap Deed.message?) := by
  induction deeds generalizing r with
  | nil => rfl
  | cons deed deeds ih =>
      cases deed with
      | handled m =>
          change ((r.handle m).undergoAll deeds).untraded = _
          rw [ih, untraded_handle]
          rfl
      | traded execution => exact ih { r with book := r.book.applyTrade execution }

/-- **The window holds the last ones of the diffs applied,** whatever trades came between. -/
theorem window_undergoAll (book : Book) {windowSize : Nat} (room : 1 ≤ windowSize)
    (deeds : List Deed) :
    ((start book windowSize).undergoAll deeds).window.diffs = Window.keepLast windowSize
      ((start book windowSize).applied (deeds.filterMap Deed.message?)) := by
  let ms := deeds.filterMap Deed.message?
  have hremembers := (remembers_start book room).handleAll ms
  have hagrees : ((start book windowSize).undergoAll deeds).Agrees
      ((start book windowSize).handleAll ms) :=
    .of_untraded ((untraded_undergoAll _ deeds).trans (untraded_handleAll _ ms).symm)
  rw [hagrees.window, hremembers.window, capacity_handleAll, List.nil_append]
  rfl

end Reconciler

namespace Registration

/-- What a step does to the book of the registration of an instrument. -/
def deed? (instrument : String) (r : Registration) : Step → Option Deed
  | .work _ worker => if worker = instrument then r.inbox.head?.map .handled else none
  | .emitTrade _ m => (m.executionOf? instrument).map .traded
  | _ => none

/-- Book and window after a step are what its deed makes of them. -/
theorem reconciler_take (config : Config) (instrument : String) (r : Registration) (s : Step) :
    (r.take config instrument s).reconciler =
      r.reconciler.undergoAll (r.deed? instrument s).toList := by
  cases s with
  | routeDiff now m =>
      simp only [take, deed?]
      split <;> simp [Reconciler.undergoAll]
  | routeSnapshot m =>
      simp only [take, deed?]
      split <;> simp [Reconciler.undergoAll]
  | emitTrade now m =>
      cases m with
      | trade t =>
          simp only [take, deed?, Message.executionOf?]
          split <;> rfl
      | _ => rfl
  | work now worker =>
      simp only [take, deed?]
      split
      case isTrue =>
        unfold worked
        cases hm : r.inbox with
        | nil => rfl
        | cons m inbox => exact reconciler_after { r with inbox } config.statsInterval (now, m)
      case isFalse => rfl
  | loseWorker lost =>
      simp only [take, deed?]
      split <;> rfl
  | _ => rfl

/-- The worker's deeds are the messages that it handles. -/
theorem message?_deed? (b : Board) (instrument : String) (r : Registration) (s : Step) :
    (r.deed? instrument s).bind Deed.message? =
      (b.fateAt? instrument r s).bind Fate.handled? := by
  -- no answer of a router is about a message that is handled
  have hanswer : ∀ (m : Message) (answer : Except Fault Offer),
      none = (Fate.ofAnswer? m answer).bind Fate.handled? := by
    intro m answer
    unfold Fate.ofAnswer?
    split <;> rfl
  cases s with
  | routeDiff now m =>
      simp only [deed?, Board.fateAt?]
      split
      · exact hanswer m _
      · rfl
  | routeSnapshot m =>
      simp only [deed?, Board.fateAt?]
      split
      · exact hanswer m _
      · rfl
  | work now worker =>
      simp only [deed?, Board.fateAt?]
      split
      · cases r.inbox <;> rfl
      · rfl
  | emitTrade now m =>
      simp only [deed?, Board.fateAt?]
      cases m.executionOf? instrument <;> rfl
  | _ => rfl

/-- The emitter's deeds are the trades that it takes for the instrument. -/
theorem execution?_deed? (instrument : String) (r : Registration) (s : Step) :
    (r.deed? instrument s).bind Deed.execution? =
      (s.taken? .trade).bind (·.executionOf? instrument) := by
  cases s with
  | work now worker =>
      simp only [deed?]
      split
      · cases r.inbox <;> rfl
      · rfl
  | emitTrade now m =>
      simp only [deed?, Step.taken?, if_true, Option.bind_some]
      cases m.executionOf? instrument <;> rfl
  | _ => rfl

end Registration

namespace Board

/-- What a step does to the book of the registration with a serial number, if that is the current
one of its instrument. -/
def deed? (b : Board) (instrument : String) (serial : Nat) (s : Step) : Option Deed :=
  (b.find? instrument).bind fun r => if r.serial = serial then r.deed? instrument s else none

/-- **What is done to the book of a registration** along a run. -/
def deeds (b : Board) (instrument : String) (serial : Nat) : List Step → List Deed
  | [] => []
  | s :: steps => (b.deed? instrument serial s).toList ++ (b.take s).deeds instrument serial steps

theorem deeds_append (b : Board) (instrument : String) (serial : Nat) (steps steps' : List Step) :
    b.deeds instrument serial (steps ++ steps') =
      b.deeds instrument serial steps ++ (b.takeAll steps).deeds instrument serial steps' := by
  induction steps generalizing b with
  | nil => rfl
  | cons s steps ih => rw [List.cons_append, deeds, deeds, ih, List.append_assoc, takeAll_cons]

theorem deeds_concat_of_find? {b : Board} {instrument : String} {steps : List Step}
    {r : Registration} (h : (b.takeAll steps).find? instrument = some r) (s : Step) :
    b.deeds instrument r.serial (steps ++ [s]) =
      b.deeds instrument r.serial steps ++ (r.deed? instrument s).toList := by
  rw [deeds_append, deeds, deeds, List.append_nil, deed?, h, Option.bind_some, if_pos rfl]

/-! ### What is handled was queued -/

section Queued

variable {config : Config} {instrument : String}

/-- Only the first message of the queue is handled. -/
theorem head?_of_handled {b : Board} {r : Registration} {s : Step} {m : Message} {uid : UInt64}
    (h : b.fateAt? instrument r s = some (.handled m uid)) : r.inbox.head? = some m := by
  have hmessage : (r.deed? instrument s).bind Deed.message? = some m := by
    rw [Registration.message?_deed? b, h]
    rfl
  obtain ⟨deed, hdeed, hm⟩ := Option.bind_eq_some_iff.1 hmessage
  cases s with
  | work now worker =>
      simp only [Registration.deed?] at hdeed
      split at hdeed
      · obtain ⟨m', hm', rfl⟩ := Option.map_eq_some_iff.1 hdeed
        exact hm'.trans hm
      · cases hdeed
  | emitTrade now m' =>
      obtain ⟨execution, -, rfl⟩ := Option.map_eq_some_iff.1 hdeed
      cases hm
  | _ => cases hdeed

/-- What a worker has handled, followed by what waits for it, was queued in this order.  If the
worker has ended, more may have been queued. -/
theorem handled_inbox_of_handled {steps : List Step} {r : Registration}
    (h : ((start config).takeAll steps).find? instrument = some r)
    (hhandled : ((start config).fates instrument r.serial steps).filterMap Fate.handled? <+:
      ((start config).fates instrument r.serial steps).filterMap Fate.queued?) :
    ((start config).fates instrument r.serial steps).filterMap Fate.handled? ++ r.inbox <+:
      ((start config).fates instrument r.serial steps).filterMap Fate.queued? := by
  cases hlive : r.live with
  | false =>
      rw [(proper_of_find? h).idle hlive, List.append_nil]
      exact hhandled
  | true =>
      have horder : r.InOrder ((start config).fates instrument r.serial steps) :=
        history_induction (P := Registration.InOrder)
          (fun serial book now live => Registration.inOrder_start serial instrument book _ now live)
          (fun _ _ _ _ hr hchange => Registration.inOrder_change hr hchange) h
      rw [horder hlive]

/-- **A worker handles what was queued for it, in order,** and nothing else. -/
theorem handled_prefix_queued (config : Config) (instrument : String) (serial : Nat)
    (steps : List Step) :
    ((start config).fates instrument serial steps).filterMap Fate.handled? <+:
      ((start config).fates instrument serial steps).filterMap Fate.queued? := by
  induction steps using List.reverseRecOn with
  | nil => exact List.prefix_rfl
  | append_singleton steps s ih =>
      rw [fates_concat, List.filterMap_append, List.filterMap_append]
      cases hfate : ((start config).takeAll steps).fate? instrument serial s with
      | none => simpa using ih
      | some fate =>
          cases fate with
          | stale m =>
              change _ ++ [] <+: _ ++ []
              simpa using ih
          | lost m =>
              change _ ++ [] <+: _ ++ []
              simpa using ih
          | queued m =>
              change _ ++ [] <+: _ ++ [m]
              rw [List.append_nil]
              exact ih.trans (List.prefix_append _ _)
          | handled m uid =>
              -- the message is the first one of those that wait
              obtain ⟨r, hr, hmine⟩ := Option.bind_eq_some_iff.1 hfate
              split at hmine
              case isFalse => cases hmine
              case isTrue hserial =>
                subst hserial
                obtain ⟨inbox, hinbox⟩ := List.head?_eq_some_iff.1 (head?_of_handled hmine)
                change _ ++ [m] <+: _ ++ []
                rw [List.append_nil]
                refine .trans ?_ (handled_inbox_of_handled hr ih)
                rw [List.prefix_append_right_inj, hinbox]
                exact List.prefix_append [m] inbox

end Queued

/-! ### From one registration to the next -/

/-- Only a refresh cycle takes a registration away. -/
theorem exists_cycle_of_replaced {b : Board} {steps : List Step} {instrument : String}
    {r : Registration} (h : b.find? instrument = some r)
    (replaced : ∀ r', (b.takeAll steps).find? instrument = some r' → r'.serial ≠ r.serial) :
    ∃ now live seen found, .converge now live seen found ∈ steps := by
  induction steps generalizing b r with
  | nil => exact absurd rfl (replaced r h)
  | cons s steps ih =>
      by_cases hcycle : ∃ now live seen found, s = .converge now live seen found
      · obtain ⟨now, live, seen, found, rfl⟩ := hcycle
        exact ⟨now, live, seen, found, List.mem_cons_self⟩
      · -- any other step leaves the registration there, with its number
        have htake := find?_take (fun now live seen found hs => hcycle ⟨now, live, seen, found, hs⟩)
          b instrument
        rw [h] at htake
        obtain ⟨now, live, seen, found, hmem⟩ := ih htake fun r' hr' => by
          rw [Registration.serial_take]
          exact replaced r' hr'
        exact ⟨now, live, seen, found, List.mem_cons_of_mem s hmem⟩

/-- Nothing becomes of messages for a number that is nobody's. -/
theorem Settled.fates_eq_nil {b : Board} {serial : Nat} {book : Book} (h : b.Settled serial book)
    (instrument : String) (steps : List Step) : b.fates instrument serial steps = [] := by
  induction steps generalizing b with
  | nil => rfl
  | cons s steps ih =>
      have hnone : b.fate? instrument serial s = none := by
        rw [fate?]
        cases hr : b.find? instrument with
        | none => rfl
        | some r => rw [Option.bind_some, if_neg (h.vacant hr)]
      rw [fates, hnone, ih (h.take s)]
      rfl

/-- **Every registration began with an entry of a look-up,** when a refresh cycle registered it. -/
theorem exists_birth {config : Config} {steps : List Step} {instrument : String} {r : Registration}
    (h : ((start config).takeAll steps).find? instrument = some r) :
    ∃ before now live seen found since,
      steps = before ++ .converge now live seen found :: since ∧
      ((start config).takeAll before).nextSerial ≤ r.serial ∧
      ∃ l ∈ newListings seen found, l.instrument = instrument ∧
        (((start config).takeAll before).take (.converge now live seen found)).find? instrument =
          some (.start r.serial instrument l.book config.windowSize now live) := by
  induction steps using List.reverseRecOn generalizing r with
  | nil => cases h
  | append_singleton steps s ih =>
      rw [takeAll_concat] at h
      rcases Nat.lt_or_ge r.serial ((start config).takeAll steps).nextSerial with hold | hnew
      · obtain ⟨r₀, hr₀, rfl⟩ := exists_eq_take h hold
        obtain ⟨before, now, live, seen, found, since, rfl, hbegin⟩ := ih hr₀
        rw [Registration.serial_take]
        exact ⟨before, now, live, seen, found, since ++ [s], by simp, hbegin⟩
      · rcases find?_take_cases h with ⟨r₀, hr₀, hchange⟩ |
          ⟨now, live, seen, found, rfl, l, hl, hname, _, _, hstart⟩
        · have hlt := serial_lt_of_find? steps hr₀
          rw [← hchange.serial_eq] at hlt
          omega
        · rw [config_takeAll] at hstart
          refine ⟨steps, now, live, seen, found, [], rfl, hnew, l, hl, hname, ?_⟩
          rw [h]
          exact congrArg some hstart

/-- What becomes of a registration along a run: its book and window come of deeds, the messages
among them are those that became handled, and the trades are those taken for the instrument. -/
theorem deeds_of_serial_eq {c : Board} (given : c.Numbered) {instrument : String}
    {fresh r : Registration} {since : List Step} (begins : c.find? instrument = some fresh)
    (h : (c.takeAll since).find? instrument = some r) (same : r.serial = fresh.serial) :
    r.reconciler = fresh.reconciler.undergoAll (c.deeds instrument fresh.serial since) ∧
    (c.deeds instrument fresh.serial since).filterMap Deed.message? =
      (c.fates instrument fresh.serial since).filterMap Fate.handled? ∧
    (c.deeds instrument fresh.serial since).filterMap Deed.execution? =
      (taken .trade since).filterMap (·.executionOf? instrument) := by
  induction since using List.reverseRecOn generalizing r with
  | nil =>
      obtain rfl := Option.some.inj (begins.symm.trans h)
      exact ⟨rfl, rfl, rfl⟩
  | append_singleton since s ih =>
      rw [takeAll_concat] at h
      have hold : r.serial < (c.takeAll since).nextSerial := by
        rw [same]
        exact Nat.lt_of_lt_of_le (given.given begins) (nextSerial_le_takeAll c since)
      obtain ⟨r₀, hr₀, rfl⟩ := exists_eq_take h hold
      rw [Registration.serial_take] at same
      obtain ⟨hreconciler, hmessages, hexecutions⟩ := ih hr₀ same
      have hdeeds := deeds_concat_of_find? hr₀ s
      have hfates := fates_concat c instrument r₀.serial since s
      rw [fate?_of_find? hr₀] at hfates
      rw [same] at hdeeds hfates
      rw [hdeeds, hfates, taken_append]
      refine ⟨?_, ?_, ?_⟩
      · rw [Registration.reconciler_take, hreconciler, Reconciler.undergoAll_append]
      · have hlast := Registration.message?_deed? (c.takeAll since) instrument r₀ s
        rw [List.filterMap_append, List.filterMap_append, hmessages, filterMap_toList,
          filterMap_toList, hlast]
      · have hlast := Registration.execution?_deed? instrument r₀ s
        have htaken : taken .trade [s] = (s.taken? .trade).toList := by
          rw [taken_cons]
          exact List.append_nil _
        rw [List.filterMap_append, List.filterMap_append, hexecutions, htaken, filterMap_toList,
          filterMap_toList, hlast]

/-- **How a registration has come from the one that the board `c` has,** along a run of steps. -/
structure Descends (c : Board) (instrument : String) (since : List Step)
    (fresh r : Registration) : Prop where
  begins : c.find? instrument = some fresh
  /-- Its book and window have come of what the worker and the emitter have done since. -/
  evolves : r.reconciler = fresh.reconciler.undergoAll (c.deeds instrument fresh.serial since)
  /-- The worker's deeds are the messages that it has handled since. -/
  handles : (c.deeds instrument fresh.serial since).filterMap Deed.message? =
    (c.fates instrument fresh.serial since).filterMap Fate.handled?
  /-- They were put into its queue since, in this order. -/
  queued : (c.fates instrument fresh.serial since).filterMap Fate.handled? <+:
    (c.fates instrument fresh.serial since).filterMap Fate.queued?
  /-- Whatever was put there, the routers had taken from their streams since, for the instrument. -/
  routed : ∀ kind, (((c.fates instrument fresh.serial since).filterMap Fate.queued?).filter
    (·.kind = kind)).Sublist ((taken kind since).filter (·.instrument = instrument))
  /-- The emitter's deeds are the trades that it has taken since, for the instrument. -/
  trades : (c.deeds instrument fresh.serial since).filterMap Deed.execution? =
    (taken .trade since).filterMap (·.executionOf? instrument)
  /-- The window holds the last ones of the diffs that have been applied since. -/
  window : r.reconciler.window.diffs = Window.keepLast c.config.windowSize
    (fresh.reconciler.applied ((c.fates instrument fresh.serial since).filterMap Fate.handled?))

/-- What is queued for a registration of an instrument is for this instrument. -/
theorem instrument_of_queued {b : Board} {instrument : String} {serial : Nat} {steps : List Step}
    {m : Message} (h : m ∈ (b.fates instrument serial steps).filterMap Fate.queued?) :
    m.instrument = instrument := by
  induction steps generalizing b with
  | nil => exact absurd h List.not_mem_nil
  | cons s steps ih =>
      rw [fates, List.filterMap_append, List.mem_append, filterMap_toList] at h
      refine h.elim ?_ ih
      intro hqueued
      obtain ⟨fate, hfate, hm⟩ := Option.bind_eq_some_iff.1 (Option.mem_toList.1 hqueued)
      cases fate with
      | queued m' =>
          obtain rfl := Option.some.inj hm
          obtain ⟨r, -, hmine⟩ := Option.bind_eq_some_iff.1 hfate
          split at hmine
          case isFalse => cases hmine
          case isTrue =>
            cases s with
            | routeDiff now m =>
                simp only [fateAt?] at hmine
                split at hmine
                case isTrue hinst => rwa [(ofAnswer?_eq_queued hmine).1] at hinst
                case isFalse => cases hmine
            | routeSnapshot m =>
                simp only [fateAt?] at hmine
                split at hmine
                case isTrue hinst => rwa [(ofAnswer?_eq_queued hmine).1] at hinst
                case isFalse => cases hmine
            | work now worker =>
                simp only [fateAt?] at hmine
                split at hmine
                · obtain ⟨_, _, hfate⟩ := Option.map_eq_some_iff.1 hmine
                  cases hfate
                · cases hmine
            | _ => cases hmine
      | _ => cases hm

/-- A registration descends from the one that a refresh cycle has made. -/
theorem descends_of_birth {config : Config} (room : 1 ≤ config.windowSize) {instrument : String}
    {r : Registration} {before since : List Step} {now : Nat} {live : Bool} {seen : List String}
    {found : Catalog} {book : Book}
    (h : ((start config).takeAll (before ++ .converge now live seen found :: since)).find?
      instrument = some r)
    (new : ((start config).takeAll before).nextSerial ≤ r.serial)
    (begins : (((start config).takeAll before).take (.converge now live seen found)).find?
      instrument = some (.start r.serial instrument book config.windowSize now live)) :
    Descends (((start config).takeAll before).take (.converge now live seen found)) instrument since
      (.start r.serial instrument book config.windowSize now live) r := by
  let b := (start config).takeAll before
  let c := b.take (.converge now live seen found)
  rw [takeAll_append, takeAll_cons] at h
  have hnumbered : c.Numbered := ((numbered_start config).takeAll before).take _
  obtain ⟨hreconciler, hmessages, hexecutions⟩ := deeds_of_serial_eq hnumbered begins h rfl
  -- the number had no past before the cycle
  have hfates : (start config).fates instrument r.serial
      (before ++ .converge now live seen found :: since) = c.fates instrument r.serial since := by
    have hnone : b.fate? instrument r.serial (.converge now live seen found) = none := by
      rw [fate?]
      cases b.find? instrument with
      | none => rfl
      | some r₀ =>
          rw [Option.bind_some]
          split <;> rfl
    rw [fates_append, fates, fates_eq_nil_of_nextSerial_le before new, List.nil_append, hnone]
    rfl
  constructor
  case begins => exact begins
  case evolves => exact hreconciler
  case handles => exact hmessages
  case queued =>
    have hhandled := handled_prefix_queued config instrument r.serial
      (before ++ .converge now live seen found :: since)
    rw [hfates] at hhandled
    exact hhandled
  case routed =>
    intro kind
    have hsublist : (((c.fates instrument r.serial since).filterMap Fate.queued?).filter
        (·.kind = kind)).Sublist (taken kind since) := queued_sublist_taken kind c since
    have hfor := hsublist.filter (·.instrument = instrument)
    rwa [List.filter_eq_self.2] at hfor
    intro m hm
    exact decide_eq_true (instrument_of_queued (List.mem_of_mem_filter hm))
  case trades => exact hexecutions
  case window =>
    have hconfig : c.config.windowSize = config.windowSize := by
      rw [config_take, config_takeAll]
      rfl
    rw [hreconciler, hconfig]
    exact (Reconciler.window_undergoAll book room _).trans (by rw [hmessages]; rfl)

end Board

namespace Tracker

/-! ### Registrations of a tracker -/

/-- A move that takes a registration away ends a refresh cycle, and the book comes to rest as it
was before the move. -/
theorem settled_of_replaced {t : Tracker} (ht : t.board.Numbered) {a : Move} {instrument : String}
    {r : Registration} (h : t.board.find? instrument = some r)
    (replaced : ∀ r', (t.move a).board.find? instrument = some r' → r'.serial ≠ r.serial) :
    (∃ now live seen found, t.stepsOf a = [.converge now live seen found]) ∧
      (t.move a).board.Settled r.serial r.book := by
  rw [board_move] at replaced ⊢
  obtain ⟨now, live, seen, found, hmem⟩ := Board.exists_cycle_of_replaced h replaced
  have hsteps := (ends_of_mem hmem).1
  rw [hsteps] at replaced ⊢
  refine ⟨⟨now, live, seen, found, rfl⟩, ?_⟩
  rcases Board.settled_take ht (.converge now live seen found) h with ⟨r', hr', hserial⟩ | hsettled
  · exact absurd hserial (replaced r' hr')
  · exact hsettled

section Reached

variable {config : Config} {directory : Directory} {t : Tracker}

/-- Registrations are told apart by their numbers at any time. -/
theorem numbered_moves (h : new config directory = .ok t) (as : List Move) :
    (t.moves as).board.Numbered := by
  rw [board_moves_of_new h]
  exact (Board.numbered_start config).takeAll _

/-- **A worker handles what was queued for it,** in this order and nothing else. -/
theorem handled_prefix_of_moves (h : new config directory = .ok t) (as : List Move) (name : String)
    (serial : Nat) :
    (t.fates name serial as).filterMap Fate.handled? <+:
      (t.fates name serial as).filterMap Fate.queued? := by
  have hstart : t.board = .start config := congrArg (·.board) (eq_of_new h)
  rw [fates, hstart]
  exact Board.handled_prefix_queued config name serial (t.trace as)

/-- What was handled, followed by what waits, is what was queued first. -/
theorem handled_inbox_prefix_of_moves (h : new config directory = .ok t) {as : List Move}
    {instrument : String} {r : Registration}
    (hr : (t.moves as).board.find? instrument = some r) :
    (t.fates instrument r.serial as).filterMap Fate.handled? ++ r.inbox <+:
      (t.fates instrument r.serial as).filterMap Fate.queued? := by
  have hstart : t.board = .start config := congrArg (·.board) (eq_of_new h)
  have hhandled := handled_prefix_of_moves h as instrument r.serial
  rw [board_moves_of_new h] at hr
  rw [fates, hstart] at hhandled ⊢
  exact Board.handled_inbox_of_handled hr hhandled

/-- **A registration that a move takes away is done with:** whatever comes later, its book stays as
it was before the move, nothing becomes of messages for it, and what it has handled and what waited
for it is what was queued for it first. -/
theorem done_of_replaced (h : new config directory = .ok t) {earlier later : List Move} {a : Move}
    {instrument : String} {r : Registration}
    (hr : (t.moves earlier).board.find? instrument = some r)
    (replaced : ∀ r', ((t.moves earlier).move a).board.find? instrument = some r' →
      r'.serial ≠ r.serial) :
    (t.moves (earlier ++ a :: later)).board.bookOf? r.serial = some r.book ∧
    ((t.moves earlier).move a).fates instrument r.serial later = [] ∧
    (t.fates instrument r.serial (earlier ++ a :: later)).filterMap Fate.handled? ++ r.inbox <+:
      (t.fates instrument r.serial (earlier ++ a :: later)).filterMap Fate.queued? := by
  obtain ⟨⟨now, live, seen, found, hsteps⟩, hsettled⟩ :=
    settled_of_replaced (numbered_moves h earlier) hr replaced
  have hlater : ((t.moves earlier).move a).fates instrument r.serial later = [] :=
    hsettled.fates_eq_nil instrument _
  refine ⟨?book, hlater, ?order⟩
  case book =>
    rw [moves_append]
    change (((t.moves earlier).move a).moves later).board.bookOf? _ = _
    rw [board_moves]
    exact (hsettled.takeAll _).bookOf?
  case order =>
    -- the cycle itself handles and queues nothing
    have hnow : (t.moves earlier).board.fate? instrument r.serial
        (.converge now live seen found) = none := by
      rw [Board.fate?_of_find? hr]
      rfl
    have hfates : t.fates instrument r.serial (earlier ++ a :: later) =
        t.fates instrument r.serial earlier := by
      rw [fates, trace_append, Board.fates_append, ← board_moves, trace, Board.fates_append,
        ← board_move]
      change _ ++ (_ ++ ((t.moves earlier).move a).fates instrument r.serial later) = _
      rw [hlater, hsteps, Board.fates, hnow]
      exact List.append_nil _
    rw [hfates]
    exact handled_inbox_prefix_of_moves h hr

end Reached

/-- **Old and new registrations of an instrument have nothing to do with each other.**  When a move
takes a registration away, its book stays as it was before the move, whatever comes later; nothing
becomes of messages for it any more, and what it has handled, followed by what waited for it then,
is what was queued for it first.  No worker handles anything but what was queued for it.  And a
registration that is there began as an entry of the directory, which a cycle registered, and
descends from it. -/
theorem registrations_apart {config : Config} {directory : Directory} {t : Tracker}
    (h : new config directory = .ok t) (as : List Move) (instrument : String) :
    (∀ earlier a later r, as = earlier ++ a :: later →
      (t.moves earlier).board.find? instrument = some r →
      (∀ r', ((t.moves earlier).move a).board.find? instrument = some r' →
        r'.serial ≠ r.serial) →
      (t.moves as).board.bookOf? r.serial = some r.book ∧
      ((t.moves earlier).move a).fates instrument r.serial later = [] ∧
      (t.fates instrument r.serial as).filterMap Fate.handled? ++ r.inbox <+:
        (t.fates instrument r.serial as).filterMap Fate.queued?) ∧
    (∀ name serial, (t.fates name serial as).filterMap Fate.handled? <+:
      (t.fates name serial as).filterMap Fate.queued?) ∧
    ∀ r, (t.moves as).board.find? instrument = some r →
      (t.moves as).board.bookOf? r.serial = some r.book ∧
      ∃ earlier a later now live seen, as = earlier ++ a :: later ∧
        (t.moves earlier).stepsOf a =
          [.converge now live seen (t.moves earlier).directory.contents] ∧
        ∃ l ∈ Board.newListings seen (t.moves earlier).directory.contents,
          l.instrument = instrument ∧
          ((t.moves earlier).move a).board.Descends instrument
            (((t.moves earlier).move a).trace later)
            (.start r.serial instrument l.book config.windowSize now live) r := by
  have room : 1 ≤ config.windowSize := (Config.validate_eq_ok_iff.1 (validate_of_new h)).1
  refine ⟨?retired, handled_prefix_of_moves h as, ?current⟩
  case retired =>
    rintro earlier a later r rfl hr replaced
    exact done_of_replaced h hr replaced
  case current =>
    intro r hr
    refine ⟨Board.bookOf?_of_find? (numbered_moves h as) hr, ?_⟩
    rw [board_moves_of_new h] at hr
    obtain ⟨before, now, live, seen, found, since, htrace, hnew, l, hl, hname, hbegins⟩ :=
      Board.exists_birth hr
    obtain ⟨earlier, a, later, rfl, rfl, rfl, hsteps, rfl⟩ := exists_of_cycle_in_trace htrace
    have hdescends := Board.descends_of_birth room (htrace ▸ hr) hnew hbegins
    have hmoved : ((t.moves earlier).move a).board =
        ((Board.start config).takeAll (t.trace earlier)).take
          (.converge now live seen (t.moves earlier).directory.contents) := by
      rw [board_move, hsteps, board_moves_of_new h]
      rfl
    rw [← hmoved] at hdescends
    exact ⟨earlier, a, later, now, live, seen, rfl, hsteps, l, hl, hname, hdescends⟩

/-- A diff still waits for A as A is retired.  When A is back it begins anew, takes a diff of its
own and a trade, and nothing of this is seen in the old book. -/
theorem registrations_apart_after_return :
    let config : Config := { windowSize := 2, queueCapacity := 4 }
    let update (id : UInt64) : Update := { instrument := "A", updateId := id, timestamp := 0 }
    let listing (id : UInt64) : Listing :=
      { instrument := "A", timestamp := 0, book := .ofSnapshot (update id) }
    let trade : Trade := { instrument := "A", timestamp := 0, price := 5, size := 1, side := .buy }
    let directory : Directory := { catalog := .ofListings [listing 10] }
    let t : Tracker := { board := .start config, directory }
    let before : List Move := [.start 0, .perform 0 .refresher,
      .send [(.diff, .diff (update 11)), (.diff, .diff (update 12))],
      .perform 0 .diffRouter, .perform 0 .diffRouter, .perform 0 (.worker "A" 0),
      .changeDirectory {}, .ask 0, .begin 0]
    let after : List Move := [.perform 0 (.worker "A" 0),
      .changeDirectory { catalog := .ofListings [listing 3] }, .ask 0, .begin 0, .conclude 0 0,
      .perform 0 (.worker "A" 0),
      .send [(.diff, .diff (update 4)), (.trade, .trade trade)],
      .perform 0 .tradeEmitter, .perform 0 .diffRouter, .perform 0 (.worker "A" 1)]
    let as := before ++ .conclude 0 0 :: after
    new config directory = .ok t ∧
    t.fates "A" 0 as = [.queued (.diff (update 11)), .queued (.diff (update 12)),
      .handled (.diff (update 11)) 10] ∧
    (∃ old, (t.moves before).board.find? "A" = some old ∧ old.inbox = [.diff (update 12)] ∧
      (t.moves as).board.bookOf? 0 = some old.book ∧ old.book.uid = 11) ∧
    ∃ new, (t.moves as).board.find? "A" = some new ∧ new.serial = 1 ∧ new.book.uid = 4 ∧
      new.book.tradeCount = 1 ∧ new.reconciler.window.diffs = [update 4] ∧
      (t.moves as).board.bookOf? 1 = some new.book := by
  intro config update listing trade directory t before after as
  have hnew : new config directory = .ok t := rfl
  have hfates : t.fates "A" 0 as = [.queued (.diff (update 11)), .queued (.diff (update 12)),
      .handled (.diff (update 11)) 10] := by
    unfold t
    cbv
  have hbefore : ((t.moves before).board.find? "A").map
      (fun r => (r.serial, r.inbox, r.book.uid)) = some (0, [.diff (update 12)], 11) := by
    unfold t
    cbv
  have hgone : ((t.moves before).move (.conclude 0 0)).board.find? "A" = none := by
    unfold t
    cbv
  have hafter : ((t.moves as).board.find? "A").map
      (fun r => (r.serial, r.book.uid, r.book.tradeCount, r.reconciler.window.diffs)) =
        some (1, 4, 1, [update 4]) := by
    unfold t
    cbv
  obtain ⟨old, hold, holdIs⟩ := Option.map_eq_some_iff.1 hbefore
  obtain ⟨new, hcurrent, hnewIs⟩ := Option.map_eq_some_iff.1 hafter
  simp only [Prod.mk.injEq] at holdIs hnewIs
  obtain ⟨hretired, -, hdescends⟩ := registrations_apart hnew as "A"
  have hrest := (hretired before (.conclude 0 0) after old rfl hold (by simp [hgone])).1
  have hread := (hdescends new hcurrent).1
  rw [holdIs.1] at hrest
  rw [hnewIs.1] at hread
  obtain ⟨hserial, huid, htrades, hwindow⟩ := hnewIs
  exact ⟨hnew, hfates, ⟨old, hold, holdIs.2.1, hrest, holdIs.2.2⟩, new, hcurrent, hserial, huid,
    htrades, hwindow, hread⟩

end Tracker

end MarketDepth
