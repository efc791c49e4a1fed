/-
**Steps on a board, in any order.**

Which task acts next is up to a scheduler, and when a worker terminates is up to nobody.  So a run
of a board is any list of steps.  Seen from one registration, a step can do few things: a message
for it is turned away, queued or lost, its worker handles one, a trade is noted on its book, or its
worker ends.  Everything else that a step does concerns other registrations, or registers the
instrument anew.

Main definitions:

* `MarketDepth.Board.Step`, `MarketDepth.Board.take`, `MarketDepth.Board.takeAll` — steps and runs;
* `MarketDepth.Fate`, `MarketDepth.Board.fates` — **what became of the messages for a
  registration**, in the order in which it happened;
* `MarketDepth.Registration.Change` — **what a step can do to a registration.**

Main results:

* `MarketDepth.Board.find?_take_cases` — **a step changes a registration in one of these ways, or
  registers it anew.**
-/

import MarketDepth.Board.Routing
import MarketDepth.Board.Work
import MarketDepth.Proofs.Refresh
import MarketDepth.Proofs.Worker

set_option relaxedAutoImplicit false
set_option autoImplicit false

namespace MarketDepth

/-! ### Steps and runs -/

namespace Board

/-- Ends the worker of one instrument; the book stays. -/
def loseWorker (b : Board) (instrument : String) : Board :=
  { b with registry := b.registry.adjust instrument (·.kill) }

/-- **A step on a board,** with everything that it depends on besides the board. -/
inductive Step where
  /-- The diff router handles a message. -/
  | routeDiff (now : Nat) (m : Message)
  /-- The snapshot router handles a message. -/
  | routeSnapshot (m : Message)
  /-- The trade emitter handles a message. -/
  | emitTrade (now : Nat) (m : Message)
  /-- The worker of an instrument handles the first message of its queue. -/
  | work (now : Nat) (instrument : String)
  /-- A refresh cycle applies the result of its look-up. -/
  | converge (now : Nat) (live : Bool) (seen : List String) (found : Catalog)
  /-- The worker of an instrument terminates. -/
  | loseWorker (instrument : String)
  /-- All workers are ended. -/
  | killWorkers
  /-- The routers and the emitter begin to count. -/
  | startTallies (now : Nat)
  /-- Events are logged. -/
  | record (events : List Event)
  /-- Somebody reads the resync requests. -/
  | takeResyncs
  /-- Somebody reads the log. -/
  | takeLog

/-- The board after a step. -/
def take (b : Board) : Step → Board
  | .routeDiff now m => (b.routeDiff now m).2
  | .routeSnapshot m => (b.routeSnapshot m).2
  | .emitTrade now m => (b.emitTrade now m).2
  | .work now instrument => (b.work now instrument).2
  | .converge now live seen found => (b.converge now live seen found).2
  | .loseWorker instrument => b.loseWorker instrument
  | .killWorkers => b.killWorkers
  | .startTallies now => { b with diffTally := .start now, tradeTally := .start now }
  | .record events => b.record events
  | .takeResyncs => { b with resyncs := [] }
  | .takeLog => { b with log := [] }

/-- **The board after a run of steps.** -/
def takeAll (b : Board) (steps : List Step) : Board :=
  steps.foldl take b

@[simp] theorem takeAll_nil (b : Board) : b.takeAll [] = b := rfl

theorem takeAll_cons (b : Board) (s : Step) (steps : List Step) :
    b.takeAll (s :: steps) = (b.take s).takeAll steps := rfl

theorem takeAll_append (b : Board) (steps steps' : List Step) :
    b.takeAll (steps ++ steps') = (b.takeAll steps).takeAll steps' :=
  List.foldl_append

theorem takeAll_concat (b : Board) (steps : List Step) (s : Step) :
    b.takeAll (steps ++ [s]) = (b.takeAll steps).take s :=
  takeAll_append b steps [s]

end Board

/-! ### What becomes of messages -/

/-- What became of a message at a registration. -/
inductive Fate where
  /-- A router turned it away, because it was not newer than the book. -/
  | stale (m : Message)
  /-- A router put it into the queue. -/
  | queued (m : Message)
  /-- A router found the queue full. -/
  | lost (m : Message)
  /-- The worker took it from the queue, with the book at an id. -/
  | handled (m : Message) (uid : UInt64)
  deriving DecidableEq

namespace Fate

/-- What the answer of a router says about the message. -/
def ofAnswer? (m : Message) : Except Fault Offer → Option Fate
  | .ok .stale => some (.stale m)
  | .ok .queued => some (.queued m)
  | .ok .overflow => some (.lost m)
  | _ => none

/-- The message, if it was queued. -/
def queued? : Fate → Option Message
  | queued m => some m
  | _ => none

/-- The message, if it was handled. -/
def handled? : Fate → Option Message
  | handled m _ => some m
  | _ => none

end Fate

theorem filterMap_toList {α β : Type} (f : α → Option β) (o : Option α) :
    o.toList.filterMap f = (o.bind f).toList := by
  cases o with
  | none => rfl
  | some a => cases h : f a <;> simp [h]

namespace Board

/-- What a step means for a message at the registration `r` of an instrument. -/
def fateAt? (b : Board) (instrument : String) (r : Registration) : Step → Option Fate
  | .routeDiff now m =>
      if m.instrument = instrument then Fate.ofAnswer? m (b.routeDiff now m).1 else none
  | .routeSnapshot m =>
      if m.instrument = instrument then Fate.ofAnswer? m (b.routeSnapshot m).1 else none
  | .work _ worker =>
      if worker = instrument then r.inbox.head?.map (.handled · r.book.uid) else none
  | _ => none

/-- The same for the registration with a serial number, if that is the current one. -/
def fate? (b : Board) (instrument : String) (serial : Nat) (s : Step) : Option Fate :=
  (b.find? instrument).bind fun r =>
    if r.serial = serial then b.fateAt? instrument r s else none

/-- **What became of the messages for a registration** along a run. -/
def fates (b : Board) (instrument : String) (serial : Nat) : List Step → List Fate
  | [] => []
  | s :: steps => (b.fate? instrument serial s).toList ++ (b.take s).fates instrument serial steps

theorem fate?_of_find? {b : Board} {instrument : String} {r : Registration}
    (h : b.find? instrument = some r) (s : Step) :
    b.fate? instrument r.serial s = b.fateAt? instrument r s := by
  simp [fate?, h]

theorem fates_append (b : Board) (instrument : String) (serial : Nat) (steps steps' : List Step) :
    b.fates instrument serial (steps ++ steps') =
      b.fates instrument serial steps ++ (b.takeAll steps).fates instrument serial steps' := by
  induction steps generalizing b with
  | nil => rfl
  | cons s steps ih => rw [List.cons_append, fates, fates, ih, List.append_assoc, takeAll_cons]

theorem fates_concat (b : Board) (instrument : String) (serial : Nat) (steps : List Step)
    (s : Step) :
    b.fates instrument serial (steps ++ [s]) =
      b.fates instrument serial steps ++ ((b.takeAll steps).fate? instrument serial s).toList := by
  rw [fates_append, fates, fates, List.append_nil]

end Board

/-! ### What a step can do to a registration -/

namespace Registration

/-- **What a step can do to the registration of an instrument,** and what that means for a
message. -/
inductive Change (config : Config) (instrument : String) :
    Registration → Option Fate → Registration → Prop
  /-- Nothing happens to it. -/
  | keep {r : Registration} : Change config instrument r none r
  /-- A diff is turned away. -/
  | stale {r : Registration} {d : Update} (here : d.instrument = instrument)
      (old : d.updateId ≤ r.book.uid) :
      Change config instrument r (some (.stale (.diff d))) r
  /-- A message is queued. -/
  | queue {r : Registration} {m : Message} (here : m.instrument = instrument)
      (numbered : m.kind ≠ .trade) (live : r.live = true)
      (room : r.inbox.length < config.queueCapacity) :
      Change config instrument r (some (.queued m)) { r with inbox := r.inbox ++ [m] }
  /-- A message is lost. -/
  | lose {r : Registration} {m : Message} (live : r.live = true)
      (full : config.queueCapacity ≤ r.inbox.length) :
      Change config instrument r (some (.lost m)) { r with resyncPending := true }
  /-- The worker handles the first message of the queue. -/
  | handle {r : Registration} {m : Message} {inbox : List Message} (next : r.inbox = m :: inbox)
      (now : Nat) :
      Change config instrument r (some (.handled m r.book.uid))
        ({ r with inbox }.after config.statsInterval (now, m))
  /-- A trade is noted. -/
  | trade {r : Registration} (execution : Execution) :
      Change config instrument r none (r.applyTrade execution)
  /-- The worker ends. -/
  | kill {r : Registration} : Change config instrument r none r.kill

/-! ### What handling leaves alone -/

/-- Applying or skipping a diff concerns book, window and tally only. -/
theorem handleDiff_frame (r : Registration) (statsInterval now : Nat) (d : Update) :
    ∃ reconciler tally, (r.handleDiff statsInterval now d).1 = { r with reconciler, tally } := by
  unfold handleDiff
  split
  · exact ⟨_, _, rfl⟩
  · split <;> exact ⟨_, _, rfl⟩

/-- A snapshot clears the mark, other messages leave it. -/
theorem resyncPending_after (r : Registration) (statsInterval now : Nat) (m : Message) :
    (r.after statsInterval (now, m)).resyncPending =
      (decide (m.kind ≠ .snapshot) && r.resyncPending) := by
  cases m with
  | diff d =>
      obtain ⟨reconciler, tally, h⟩ := handleDiff_frame r statsInterval now d
      change (r.handleDiff statsInterval now d).1.resyncPending = _
      rw [h]
      simp
  | snapshot s => rfl
  | trade t => simp [after, handle]

theorem after_frame (r : Registration) (statsInterval : Nat) (arrival : Nat × Message) :
    ∃ reconciler tally resyncPending,
      r.after statsInterval arrival = { r with reconciler, tally, resyncPending } := by
  obtain ⟨now, m⟩ := arrival
  cases m with
  | diff d =>
      obtain ⟨reconciler, tally, h⟩ := handleDiff_frame r statsInterval now d
      exact ⟨reconciler, tally, r.resyncPending, h⟩
  | snapshot s => exact ⟨_, _, _, rfl⟩
  | trade t => exact ⟨_, _, _, rfl⟩

namespace Change

variable {config : Config} {instrument : String} {r r' : Registration} {fate : Option Fate}

theorem serial_eq (h : r.Change config instrument fate r') : r'.serial = r.serial := by
  cases h with
  | handle _ now =>
      obtain ⟨_, _, _, h⟩ := after_frame _ config.statsInterval (now, _)
      rw [h]
  | _ => rfl

/-- A worker that has ended does not come back. -/
theorem live_of_live (h : r.Change config instrument fate r') (live : r'.live = true) :
    r.live = true := by
  cases h with
  | handle _ now =>
      obtain ⟨_, _, _, h⟩ := after_frame _ config.statsInterval (now, _)
      rw [h] at live
      exact live
  | kill => cases live
  | _ => exact live

end Change

end Registration

/-! ### The registry after a step -/

namespace Board

theorem find?_congr {b b' : Board} (h : b'.registry = b.registry) (instrument : String) :
    b'.find? instrument = b.find? instrument :=
  congrArg (·.find? instrument) h

theorem find?_setRegistration (b : Board) (changed instrument : String) (r : Registration) :
    (b.setRegistration changed r).find? instrument =
      if instrument = changed then (b.find? changed).map fun _ => r else b.find? instrument :=
  NameTable.find?_adjust b.registry changed instrument fun _ => r

theorem find?_overflow (b : Board) (r : Registration) (m : Message) (instrument : String) :
    (b.overflow r m).find? instrument =
      if instrument = m.instrument then
        (b.find? instrument).map fun _ => { r with resyncPending := true }
      else b.find? instrument := by
  have hset := find?_setRegistration b m.instrument instrument { r with resyncPending := true }
  have hoverflow : (b.overflow r m).registry =
      (b.setRegistration m.instrument { r with resyncPending := true }).registry := by
    unfold overflow
    dsimp only
    split
    · rfl
    · split <;> rfl
  rw [find?_congr hoverflow, hset]
  split
  case isTrue h => rw [h]
  case isFalse => rfl

theorem offer_of_find?_eq_none {b : Board} {m : Message} (h : b.find? m.instrument = none)
    (checkAge : Bool) : b.offer m checkAge = (.unknown, b) := by
  simp [offer, h]

/-- What a registered instrument makes of an offer. -/
theorem offer_of_find? {b : Board} {m : Message} {r : Registration}
    (h : b.find? m.instrument = some r) (checkAge : Bool) :
    b.offer m checkAge =
      if checkAge && m.updateId?.any (· ≤ r.book.uid) then (.stale, b)
      else if r.live = false then (.closed, b)
      else if r.inbox.length < b.config.queueCapacity then
        (.queued, b.setRegistration m.instrument { r with inbox := r.inbox ++ [m] })
      else (.overflow, b.overflow r m) := by
  rw [offer, h]

/-- An offer to a dead worker changes nothing. -/
theorem offer_closed (b : Board) (m : Message) (checkAge : Bool)
    (h : (b.offer m checkAge).1 = .closed) : (b.offer m checkAge).2 = b := by
  cases hm : b.find? m.instrument with
  | none => rw [offer_of_find?_eq_none hm]
  | some r =>
      rw [offer_of_find? hm] at h ⊢
      split at h
      · cases h
      · split at h
        case isTrue hold hdead => rw [if_neg hold, if_pos hdead]
        case isFalse => split at h <;> cases h

/-- An offer to another instrument leaves a registration alone, and an offer to its own is one of
its changes. -/
theorem find?_offer_cases {b : Board} {m : Message} {checkAge : Bool}
    (numbered : m.kind ≠ .trade) (aged : checkAge = true → m.kind = .diff) {instrument : String}
    {r' : Registration} (h : (b.offer m checkAge).2.find? instrument = some r') :
    ∃ r, b.find? instrument = some r ∧ r.Change b.config instrument
      (if m.instrument = instrument then Fate.ofAnswer? m (.ok (b.offer m checkAge).1) else none)
      r' := by
  cases hm : b.find? m.instrument with
  | none =>
      rw [offer_of_find?_eq_none hm] at h ⊢
      refine ⟨r', h, ?_⟩
      split <;> exact .keep
  | some r =>
      rw [offer_of_find? hm] at h ⊢
      by_cases hinst : m.instrument = instrument
      · subst hinst
        rw [if_pos rfl]
        refine ⟨r, hm, ?_⟩
        split at h
        case isTrue hold =>
          obtain rfl := Option.some.inj (hm.symm.trans h)
          rw [if_pos hold]
          rw [Bool.and_eq_true] at hold
          -- only diffs are asked for their age
          cases m with
          | diff d => exact .stale rfl (by simpa using hold.2)
          | snapshot s => cases aged hold.1
          | trade t => cases aged hold.1
        case isFalse hfresh =>
          rw [if_neg hfresh]
          split at h
          case isTrue hdead =>
            obtain rfl := Option.some.inj (hm.symm.trans h)
            rw [if_pos hdead]
            exact .keep
          case isFalse hlive =>
            rw [if_neg hlive]
            rw [Bool.not_eq_false] at hlive
            split at h
            case isTrue hroom =>
              rw [find?_setRegistration, if_pos rfl, hm] at h
              obtain rfl := Option.some.inj h
              rw [if_pos hroom]
              exact .queue rfl numbered hlive hroom
            case isFalse hfull =>
              rw [find?_overflow, if_pos rfl, hm] at h
              obtain rfl := Option.some.inj h
              rw [if_neg hfull]
              exact .lose hlive (Nat.le_of_not_lt hfull)
      · rw [if_neg hinst]
        refine ⟨r', ?_, .keep⟩
        have hne : instrument ≠ m.instrument := Ne.symm hinst
        split at h
        · exact h
        · split at h
          · exact h
          · split at h
            · rwa [find?_setRegistration, if_neg hne] at h
            · rwa [find?_overflow, if_neg hne] at h

/-- What is on the wrong stream is refused. -/
theorem routeDiff_of_kind_ne {b : Board} {m : Message} (h : m.kind ≠ .diff) (now : Nat) :
    b.routeDiff now m = (.error (.unexpectedMessage m.kind "diff"), b) := by
  rw [routeDiff, if_pos h]

theorem routeSnapshot_of_kind_ne {b : Board} {m : Message} (h : m.kind ≠ .snapshot) :
    b.routeSnapshot m = (.error (.unexpectedMessage m.kind "snapshot"), b) := by
  rw [routeSnapshot, if_pos h]

/-- For a diff, the diff router answers and does what the offer does; the totals are its own. -/
theorem routeDiff_of_kind {b : Board} {m : Message} (h : m.kind = .diff) (now : Nat) :
    Fate.ofAnswer? m (b.routeDiff now m).1 = Fate.ofAnswer? m (.ok (b.offer m true).1) ∧
      (b.routeDiff now m).2.registry = (b.offer m true).2.registry := by
  have hclosed := offer_closed b m true
  rw [routeDiff, if_neg (not_not.2 h)]
  cases hoffer : b.offer m true with
  | mk outcome b' =>
      rw [hoffer] at hclosed
      cases outcome with
      | closed =>
          obtain rfl := hclosed rfl
          exact ⟨rfl, rfl⟩
      | queued => exact ⟨rfl, registry_acceptDiff b' now⟩
      | unknown => exact ⟨rfl, registry_rejectDiff b' now⟩
      | stale => exact ⟨rfl, registry_rejectDiff b' now⟩
      | overflow => exact ⟨rfl, registry_rejectDiff b' now⟩

/-- For a snapshot, so does the snapshot router. -/
theorem routeSnapshot_of_kind {b : Board} {m : Message} (h : m.kind = .snapshot) :
    Fate.ofAnswer? m (b.routeSnapshot m).1 = Fate.ofAnswer? m (.ok (b.offer m false).1) ∧
      (b.routeSnapshot m).2.registry = (b.offer m false).2.registry := by
  have hclosed := offer_closed b m false
  rw [routeSnapshot, if_neg (not_not.2 h)]
  cases hoffer : b.offer m false with
  | mk outcome b' =>
      rw [hoffer] at hclosed
      cases outcome with
      | closed =>
          obtain rfl := hclosed rfl
          exact ⟨rfl, rfl⟩
      | queued => exact ⟨rfl, rfl⟩
      | unknown => exact ⟨rfl, rfl⟩
      | stale => exact ⟨rfl, rfl⟩
      | overflow => exact ⟨rfl, rfl⟩

theorem find?_routeDiff_cases {b : Board} {now : Nat} {m : Message} {instrument : String}
    {r' : Registration} (h : (b.routeDiff now m).2.find? instrument = some r') :
    ∃ r, b.find? instrument = some r ∧
      r.Change b.config instrument (b.fateAt? instrument r (.routeDiff now m)) r' := by
  by_cases hkind : m.kind = .diff
  · obtain ⟨hfate, hregistry⟩ := routeDiff_of_kind (b := b) hkind now
    rw [find?_congr hregistry] at h
    simp only [fateAt?, hfate]
    exact find?_offer_cases (by simp [hkind]) (fun _ => hkind) h
  · rw [routeDiff_of_kind_ne hkind] at h
    refine ⟨r', h, ?_⟩
    simp only [fateAt?, routeDiff_of_kind_ne hkind, Fate.ofAnswer?, ite_self]
    exact .keep

theorem find?_routeSnapshot_cases {b : Board} {m : Message} {instrument : String}
    {r' : Registration} (h : (b.routeSnapshot m).2.find? instrument = some r') :
    ∃ r, b.find? instrument = some r ∧
      r.Change b.config instrument (b.fateAt? instrument r (.routeSnapshot m)) r' := by
  by_cases hkind : m.kind = .snapshot
  · obtain ⟨hfate, hregistry⟩ := routeSnapshot_of_kind (b := b) hkind
    rw [find?_congr hregistry] at h
    simp only [fateAt?, hfate]
    exact find?_offer_cases (by simp [hkind]) (fun h => absurd h Bool.false_ne_true) h
  · rw [routeSnapshot_of_kind_ne hkind] at h
    refine ⟨r', h, ?_⟩
    simp only [fateAt?, routeSnapshot_of_kind_ne hkind, Fate.ofAnswer?, ite_self]
    exact .keep

theorem find?_emitTrade_cases {b : Board} {now : Nat} {m : Message} {instrument : String}
    {r' : Registration} (h : (b.emitTrade now m).2.find? instrument = some r') :
    ∃ r, b.find? instrument = some r ∧ r.Change b.config instrument none r' := by
  cases m with
  | diff d => exact ⟨r', h, .keep⟩
  | snapshot s => exact ⟨r', h, .keep⟩
  | trade t =>
      simp only [emitTrade] at h
      split at h
      case h_1 r hr =>
        rw [find?_congr (registry_reportTrades _ now)] at h
        change (b.setRegistration t.instrument (r.applyTrade t.execution)).find? instrument = _ at h
        rw [find?_setRegistration] at h
        split at h
        case isTrue hinst =>
          rw [hr] at h
          obtain rfl := Option.some.inj h
          exact ⟨r, hinst ▸ hr, .trade t.execution⟩
        case isFalse => exact ⟨r', h, .keep⟩
      case h_2 =>
        rw [find?_congr (registry_reportTrades _ now)] at h
        exact ⟨r', h, .keep⟩

/-- The registry after a worker's step, whether it could handle the message or not. -/
theorem registry_work {b : Board} {now : Nat} {worker : String} {r : Registration} {m : Message}
    {inbox : List Message} (hr : b.find? worker = some r) (hm : r.inbox = m :: inbox) :
    (b.work now worker).2.registry = (b.setRegistration worker
      ({ r with inbox }.after b.config.statsInterval (now, m))).registry := by
  simp only [work, hr, hm, Registration.after]
  cases { r with inbox }.handle b.config.statsInterval now m <;> rfl

theorem work_of_inbox_eq_nil {b : Board} {worker : String} {r : Registration}
    (hr : b.find? worker = some r) (hm : r.inbox = []) (now : Nat) :
    b.work now worker = (none, b) := by
  simp [work, hr, hm]

theorem find?_work_cases {b : Board} {now : Nat} {worker instrument : String} {r' : Registration}
    (h : (b.work now worker).2.find? instrument = some r') :
    ∃ r, b.find? instrument = some r ∧
      r.Change b.config instrument (b.fateAt? instrument r (.work now worker)) r' := by
  by_cases hworker : worker = instrument
  · subst hworker
    simp only [fateAt?, if_true]
    cases hr : b.find? worker with
    | none =>
        have hwork : b.work now worker = (none, b) := by simp [work, hr]
        rw [hwork, hr] at h
        cases h
    | some r =>
        refine ⟨r, rfl, ?_⟩
        cases hm : r.inbox with
        | nil =>
            rw [work_of_inbox_eq_nil hr hm, hr] at h
            obtain rfl := Option.some.inj h
            exact .keep
        | cons m inbox =>
            rw [find?_congr (registry_work hr hm), find?_setRegistration, if_pos rfl, hr] at h
            obtain rfl := Option.some.inj h
            exact .handle hm now
  · simp only [fateAt?, if_neg hworker]
    refine ⟨r', ?_, .keep⟩
    cases hr : b.find? worker with
    | none =>
        have hwork : b.work now worker = (none, b) := by simp [work, hr]
        rwa [hwork] at h
    | some r =>
        cases hm : r.inbox with
        | nil => rwa [work_of_inbox_eq_nil hr hm] at h
        | cons m inbox =>
            rwa [find?_congr (registry_work hr hm), find?_setRegistration,
              if_neg (Ne.symm hworker)] at h

theorem find?_loseWorker (b : Board) (lost instrument : String) :
    (b.loseWorker lost).find? instrument =
      if instrument = lost then (b.find? lost).map (·.kill) else b.find? instrument :=
  NameTable.find?_adjust b.registry lost instrument (·.kill)

theorem find?_killWorkers (b : Board) (instrument : String) :
    b.killWorkers.find? instrument = (b.find? instrument).map (·.kill) :=
  NameTable.find?_map b.registry instrument (·.kill)

/-- **A step changes a registration, or registers it anew** with a number not used before. -/
theorem find?_take_cases {b : Board} {s : Step} {instrument : String} {r' : Registration}
    (h : (b.take s).find? instrument = some r') :
    (∃ r, b.find? instrument = some r ∧
      r.Change b.config instrument (b.fateAt? instrument r s) r') ∨
    ∃ now live seen found, s = .converge now live seen found ∧
      ∃ l ∈ newListings seen found, l.instrument = instrument ∧ b.nextSerial ≤ r'.serial ∧
        r'.serial < (b.take s).nextSerial ∧
        r' = .start r'.serial instrument l.book b.config.windowSize now live := by
  cases s with
  | routeDiff now m => exact .inl (find?_routeDiff_cases h)
  | routeSnapshot m => exact .inl (find?_routeSnapshot_cases h)
  | emitTrade now m => exact .inl (find?_emitTrade_cases h)
  | work now worker => exact .inl (find?_work_cases h)
  | converge now live seen found =>
      rcases find?_converge_cases b now live seen found h with h | ⟨l, hl, hname, hle, hlt, hstart⟩
      · exact .inl ⟨r', h, .keep⟩
      · refine .inr ⟨now, live, seen, found, rfl, l, hl, hname, hle, ?_, hstart⟩
        rw [take, nextSerial_converge]
        exact hlt
  | loseWorker lost =>
      rw [take, find?_loseWorker] at h
      split at h
      case isTrue hinst =>
        obtain ⟨r, hr, rfl⟩ := Option.map_eq_some_iff.1 h
        exact .inl ⟨r, hinst ▸ hr, .kill⟩
      case isFalse => exact .inl ⟨r', h, .keep⟩
  | killWorkers =>
      rw [take, find?_killWorkers] at h
      obtain ⟨r, hr, rfl⟩ := Option.map_eq_some_iff.1 h
      exact .inl ⟨r, hr, .kill⟩
  | startTallies now => exact .inl ⟨r', h, .keep⟩
  | record events => exact .inl ⟨r', h, .keep⟩
  | takeResyncs => exact .inl ⟨r', h, .keep⟩
  | takeLog => exact .inl ⟨r', h, .keep⟩

end Board

end MarketDepth
