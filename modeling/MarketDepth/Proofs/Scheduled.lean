/-
**Who will act again.**

A task acts again if it stands in the ready line or sleeps until a time; such a task is called
scheduled here.  Tasks schedule themselves again after a message, and they schedule others: a
message wakes the worker of its instrument, a cycle starts workers, and a turn that is passed on may
wake the refresher.  In a running tracker a reader is scheduled at most once, and the refresher is
scheduled once or stands once in the line for turns.

Main definitions:

* `MarketDepth.Kind.reader` — the task that reads a stream;
* `MarketDepth.Tracker.scheduled`, `MarketDepth.Tracker.Adds` — the tasks that will act again, and
  how they become more;
* `MarketDepth.Tracker.Orderly` — **nobody is scheduled twice, and turns are in order.**

Main results:

* `MarketDepth.Tracker.refreshStep_inversion`, `MarketDepth.Tracker.adds_perform` — what tasks do to
  the schedule;
* `MarketDepth.Tracker.orderly_of_moves` — **the schedule is in order at any time.**
-/

import MarketDepth.Proofs.Accounts

set_option relaxedAutoImplicit false
set_option autoImplicit false

namespace MarketDepth

/-! ### Readers -/

namespace Kind

/-- The task that reads the stream of a kind. -/
def reader : Kind → Task
  | diff => .diffRouter
  | snapshot => .snapshotRouter
  | trade => .tradeEmitter

/-- What that task does to the board with a message. -/
def step (now : Nat) (m : Message) : Kind → Board.Step
  | diff => .routeDiff now m
  | snapshot => .routeSnapshot m
  | trade => .emitTrade now m

@[simp] theorem reader_ne_refresher (stream : Kind) : stream.reader ≠ .refresher := by
  cases stream <;> simp [reader]

@[simp] theorem role_reader_ne (stream : Kind) : stream.reader.role ≠ .worker := by
  cases stream <;> simp [reader, Task.role]

end Kind

namespace Tracker

/-! ### The schedule -/

/-- **The tasks that will act again:** those that are ready and those that sleep. -/
def scheduled (t : Tracker) : List Task :=
  t.ready ++ t.timers.map (·.2)

theorem mem_scheduled_iff {t : Tracker} {task : Task} :
    task ∈ t.scheduled ↔ task ∈ t.ready ∨ ∃ due, (due, task) ∈ t.timers := by
  simp [scheduled]

/-- **From one tracker to another some tasks are scheduled in addition,** and none is left out. -/
def Adds (t : Tracker) (added : List Task) (t' : Tracker) : Prop :=
  t'.scheduled.Perm (added ++ t.scheduled)

namespace Adds

variable {t t' t'' : Tracker} {added added' : List Task}

theorem none (h : t'.scheduled = t.scheduled) : t.Adds [] t' := by
  rw [Adds, h, List.nil_append]

theorem trans (h : t.Adds added t') (h' : t'.Adds added' t'') : t.Adds (added' ++ added) t'' := by
  rw [Adds, List.append_assoc]
  exact List.Perm.trans h' (List.Perm.append_left added' h)

theorem count_eq (h : t.Adds added t') (task : Task) :
    t'.scheduled.count task = added.count task + t.scheduled.count task := by
  rw [List.Perm.count_eq h, List.count_append]

theorem mem (h : t.Adds added t') {task : Task} (htask : task ∈ t.scheduled) :
    task ∈ t'.scheduled :=
  (List.Perm.mem_iff h).2 (List.mem_append_right _ htask)

theorem mem_of_added (h : t.Adds added t') {task : Task} (htask : task ∈ added) :
    task ∈ t'.scheduled :=
  (List.Perm.mem_iff h).2 (List.mem_append_left _ htask)

end Adds

/-! ### Waking and sleeping -/

/-- Tasks may be made ready behind those that are. -/
theorem adds_of_ready {t t' : Tracker} {added : List Task} (hready : t'.ready = t.ready ++ added)
    (htimers : t'.timers = t.timers) : t.Adds added t' := by
  rw [Adds, scheduled, scheduled, hready, htimers, ← List.append_assoc]
  exact List.perm_append_comm.append_right _

/-- A task is woken if it is not scheduled. -/
theorem wake_eq (t : Tracker) (task : Task) :
    t.wake task = if task ∈ t.scheduled then t else { t with ready := t.ready ++ [task] } := by
  have hwoken : (t.ready.contains task || t.timers.any (·.2 == task)) = true ↔
      task ∈ t.scheduled := by
    simp [scheduled]
  exact if_congr hwoken rfl rfl

theorem adds_wake (t : Tracker) (task : Task) :
    t.Adds (if task ∈ t.scheduled then [] else [task]) (t.wake task) := by
  rw [wake_eq]
  split
  · exact .none rfl
  · exact adds_of_ready rfl rfl

theorem mem_scheduled_wake (t : Tracker) (task : Task) : task ∈ (t.wake task).scheduled := by
  by_cases h : task ∈ t.scheduled
  · exact (adds_wake t task).mem h
  · exact (adds_wake t task).mem_of_added (by rw [if_neg h]; exact List.mem_singleton_self task)

theorem adds_goOn (t : Tracker) (task : Task) : t.Adds [task] (t.goOn task) :=
  List.Perm.refl _

theorem adds_sleep (t : Tracker) (due : Nat) (task : Task) : t.Adds [task] (t.sleep due task) := by
  rw [Adds, scheduled, sleep, List.map_append, ← List.append_assoc]
  exact List.perm_append_comm

/-- After a fault a task goes on in its time. -/
theorem adds_pause (t : Tracker) (now : Nat) (task : Task) (fault : Fault) :
    t.Adds [task] (t.pause now task fault) := by
  dsimp only [pause]
  split
  · exact adds_goOn (t.record _) task
  · exact adds_sleep (t.record _) _ task

theorem adds_afterMessage (t : Tracker) (now : Nat) (task : Task) (fault? : Option Fault) :
    t.Adds [task] (t.afterMessage now task fault?) := by
  cases fault? with
  | none => exact adds_goOn t task
  | some fault => exact adds_pause t now task fault

theorem adds_wakeWorker (t : Tracker) (instrument : String) :
    ∃ woken, t.Adds woken (t.wakeWorker instrument) ∧ ∀ task ∈ woken, task.role = .worker := by
  unfold wakeWorker
  split
  next r _ =>
    refine ⟨_, adds_wake t _, ?_⟩
    split <;> simp [Task.role]
  next => exact ⟨[], .none rfl, by simp⟩

/-- The worker of a registered instrument can be woken. -/
theorem mem_scheduled_wakeWorker {t : Tracker} {instrument : String} {r : Registration}
    (h : t.board.find? instrument = some r) :
    .worker instrument r.serial ∈ (t.wakeWorker instrument).scheduled := by
  rw [wakeWorker, h]
  exact mem_scheduled_wake t _

theorem adds_afterRouting (t : Tracker) (now : Nat) (task : Task) (instrument : String)
    (result : Except Fault Offer) :
    ∃ woken, t.Adds (task :: woken) (t.afterRouting now task instrument result) ∧
      ∀ task ∈ woken, task.role = .worker := by
  cases result with
  | error fault => exact ⟨[], adds_pause t now task fault, by simp⟩
  | ok offer =>
      cases offer with
      | queued =>
          obtain ⟨woken, hwoken, hrole⟩ := adds_wakeWorker t instrument
          exact ⟨woken, hwoken.trans (adds_goOn _ task), hrole⟩
      | _ => exact ⟨[], adds_goOn t task, by simp⟩

/-- The tasks that fire stay scheduled. -/
theorem adds_fire (t : Tracker) (now : Nat) : t.Adds [] (t.fire now) := by
  have hsplit := List.filter_append_perm (fun timer : Nat × Task => decide (timer.1 ≤ now)) t.timers
  simp only [← decide_not, Nat.not_le] at hsplit
  rw [Adds, scheduled, fire, List.append_assoc, ← List.map_append]
  exact (hsplit.map _).append_left _

/-- Who sleeps until now is ready then. -/
theorem mem_ready_fire {t : Tracker} {due now : Nat} {task : Task} (h : (due, task) ∈ t.timers)
    (hdue : due ≤ now) : task ∈ (t.fire now).ready := by
  refine List.mem_append_right _ (List.mem_map.2 ⟨(due, task), ?_, rfl⟩)
  exact List.mem_filter.2 ⟨h, decide_eq_true hdue⟩

/-- A task that leaves the ready line for its turn is not scheduled in it any more. -/
theorem adds_of_mem_ready {t : Tracker} {task : Task} (h : task ∈ t.ready) :
    ({ t with ready := t.ready.erase task } : Tracker).Adds [task] t :=
  (List.perm_cons_erase h).append_right _

/-! ### Cycles -/

/-- **A cycle starts workers and passes the turn on.** -/
theorem concludeCycle_eq_passTurn (t : Tracker) (now : Nat) (seen : List String) :
    ∃ directory board workers, (∀ task ∈ workers, task.role = .worker) ∧
      (t.concludeCycle now seen).2 =
        ({ t with directory, board, ready := t.ready ++ workers } : Tracker).passTurn := by
  unfold concludeCycle
  rcases t.directory.lookup_cases with hlookup | ⟨fault, after, hlookup, -⟩
  · simp only [hlookup]
    refine ⟨_, _, _, ?_, rfl⟩
    intro task htask
    obtain ⟨r, -, rfl⟩ := List.mem_map.1 htask
    rfl
  · simp only [hlookup]
    refine ⟨after, t.board, [], by simp, ?_⟩
    rw [List.append_nil]

/-- The refresher sleeps when its cycle has ended, unless the look-up has failed and it may go on at
once. -/
theorem finishPeriodic_inversion (t : Tracker) (now : Nat) (seen : List String) :
    (∃ due, now < due ∧
      t.finishPeriodic now seen = (t.concludeCycle now seen).2.sleep due .refresher) ∨
    ∃ fault, t.finishPeriodic now seen =
      (t.concludeCycle now seen).2.pause now .refresher fault := by
  unfold finishPeriodic
  split
  next h =>
    rw [h]
    exact .inl ⟨_, by omega, rfl⟩
  next fault _ h =>
    rw [h]
    exact .inr ⟨fault, rfl⟩

/-- Who has the turn sleeps until the directory answers, or ends its cycle at once. -/
theorem beginPeriodic_inversion (t : Tracker) (now : Nat) :
    let turns := t.turns.begin t.board.trackedNames
    (∃ due, now < due ∧ t.beginPeriodic now = { t with turns }.sleep due .refresher) ∨
      ∃ seen, t.beginPeriodic now = { t with turns }.finishPeriodic now seen := by
  dsimp only [beginPeriodic]
  split
  next => exact .inr ⟨_, rfl⟩
  next hdelay => exact .inl ⟨now + t.directory.delay, by omega, rfl⟩

/-- **What the refresher does:** it asks for the turn that a caller has, or it has the turn itself,
and sleeps until the directory answers or ends its cycle. -/
theorem refreshStep_inversion (t : Tracker) (now : Nat) :
    (∃ caller seen?, t.turns.current? = some { owner := .caller caller, seen? } ∧
      t.refreshStep now = { t with turns := t.turns.ask .periodic }) ∨
    ∃ turns : Turns, turns.isHeldBy .periodic = true ∧ turns.waiting = t.turns.waiting ∧
      ((∃ due, now < due ∧ t.refreshStep now = { t with turns }.sleep due .refresher) ∨
        ∃ seen, t.refreshStep now = { t with turns }.finishPeriodic now seen) := by
  have hheld : ∀ turns : Turns, turns.isHeldBy .periodic = true →
      (turns.begin t.board.trackedNames).isHeldBy .periodic = true := by
    intro turns h
    simpa [Turns.isHeldBy, Turns.begin, Option.any_map] using h
  simp only [refreshStep]
  rcases hcurrent : t.turns.current? with _ | ⟨_ | caller, _ | seen⟩
  · refine .inr ⟨_, hheld (t.turns.ask .periodic) ?_, ?_,
      beginPeriodic_inversion { t with turns := t.turns.ask .periodic } now⟩
    · simp [Turns.ask, hcurrent, Turns.isHeldBy]
    · simp [Turns.ask, hcurrent]
  · refine .inr ⟨_, hheld t.turns ?_, rfl, beginPeriodic_inversion t now⟩
    simp [hcurrent, Turns.isHeldBy]
  · exact .inr ⟨t.turns, by simp [hcurrent, Turns.isHeldBy], rfl, .inr ⟨seen, rfl⟩⟩
  · exact .inl ⟨caller, none, rfl, rfl⟩
  · exact .inl ⟨caller, some seen, rfl, rfl⟩

/-! ### Tasks -/

/-- The messages that wait for a task. -/
def input (t : Tracker) : Task → List Message
  | .tradeEmitter => t.trades
  | .diffRouter => t.diffs
  | .snapshotRouter => t.snapshots
  | .refresher => []
  | .worker instrument serial =>
      match t.board.find? instrument with
      | some r => if r.serial = serial then r.inbox else []
      | none => []

theorem input_reader (t : Tracker) (stream : Kind) : t.input stream.reader = t.stream stream := by
  cases stream <;> rfl

/-- **A task schedules itself again if it has found a message,** and may have woken a worker. -/
theorem adds_perform (t : Tracker) (now : Nat) {task : Task} (h : task ≠ .refresher) :
    t.input task = [] ∧ t.perform now task = t ∨
      ∃ woken, t.Adds (task :: woken) (t.perform now task) ∧
        ∀ other ∈ woken, other.role = .worker := by
  cases task with
  | tradeEmitter =>
      simp only [perform, input]
      cases htrades : t.trades with
      | nil => exact .inl ⟨rfl, rfl⟩
      | cons m trades => exact .inr ⟨[], adds_afterMessage _ now .tradeEmitter _, by simp⟩
  | diffRouter =>
      simp only [perform, input]
      cases hdiffs : t.diffs with
      | nil => exact .inl ⟨rfl, rfl⟩
      | cons m diffs => exact .inr (adds_afterRouting _ now .diffRouter m.instrument _)
  | snapshotRouter =>
      simp only [perform, input]
      cases hsnapshots : t.snapshots with
      | nil => exact .inl ⟨rfl, rfl⟩
      | cons m snapshots => exact .inr (adds_afterRouting _ now .snapshotRouter m.instrument _)
  | refresher => exact absurd rfl h
  | worker instrument serial =>
      simp only [perform, input]
      cases hr : t.board.find? instrument with
      | none => exact .inl ⟨rfl, rfl⟩
      | some r =>
          dsimp only
          by_cases hmine : r.serial = serial ∧ r.inbox ≠ []
          · rw [if_pos hmine]
            exact .inr ⟨[], adds_afterMessage _ now (.worker instrument serial) _, by simp⟩
          · rw [if_neg hmine]
            refine .inl ⟨?_, rfl⟩
            split
            next hserial => exact not_not.1 fun hinbox => hmine ⟨hserial, hinbox⟩
            next => rfl

/-! ### Streams of one kind -/

/-- The tracker with these messages in the stream of a kind. -/
def setStream (t : Tracker) (stream : Kind) (ms : List Message) : Tracker :=
  match stream with
  | .diff => { t with diffs := ms }
  | .snapshot => { t with snapshots := ms }
  | .trade => { t with trades := ms }

section SetStream

variable (t : Tracker) (stream : Kind) (ms : List Message)

@[simp] theorem stream_setStream (stream' : Kind) :
    (t.setStream stream ms).stream stream' = if stream' = stream then ms else t.stream stream' := by
  cases stream <;> cases stream' <;> rfl

@[simp] theorem board_setStream : (t.setStream stream ms).board = t.board := by
  cases stream <;> rfl

@[simp] theorem ready_setStream : (t.setStream stream ms).ready = t.ready := by
  cases stream <;> rfl

@[simp] theorem timers_setStream : (t.setStream stream ms).timers = t.timers := by
  cases stream <;> rfl

@[simp] theorem turns_setStream : (t.setStream stream ms).turns = t.turns := by
  cases stream <;> rfl

@[simp] theorem phase_setStream : (t.setStream stream ms).phase = t.phase := by
  cases stream <;> rfl

@[simp] theorem scheduled_setStream : (t.setStream stream ms).scheduled = t.scheduled := by
  cases stream <;> rfl

@[simp] theorem setStream_setStream (ms' : List Message) :
    (t.setStream stream ms).setStream stream ms' = t.setStream stream ms' := by
  cases stream <;> rfl

@[simp] theorem setStream_stream : t.setStream stream (t.stream stream) = t := by
  cases stream <;> rfl

end SetStream

/-- A message is put behind those that wait, and in a running tracker the reader is woken. -/
theorem push_eq (t : Tracker) (stream : Kind) (m : Message) :
    t.push stream m =
      if t.phase = .running then
        (t.setStream stream (t.stream stream ++ [m])).wake stream.reader
      else t.setStream stream (t.stream stream ++ [m]) := by
  cases stream <;> rfl

/-! ### Falling asleep -/

/-- **From one tracker to another some tasks fall asleep,** until later than now, and none wakes
up. -/
def Sleeps (t : Tracker) (now : Nat) (t' : Tracker) : Prop :=
  ∃ late, t'.timers = t.timers ++ late ∧ ∀ timer ∈ late, now < timer.1

theorem Sleeps.trans {t t' t'' : Tracker} {now : Nat} (h : t.Sleeps now t')
    (h' : t'.Sleeps now t'') : t.Sleeps now t'' := by
  obtain ⟨late, htimers, hlate⟩ := h
  obtain ⟨late', htimers', hlate'⟩ := h'
  refine ⟨late ++ late', by rw [htimers', htimers, List.append_assoc], fun timer htimer => ?_⟩
  exact (List.mem_append.1 htimer).elim (hlate timer) (hlate' timer)

theorem sleeps_of_eq {t t' : Tracker} (h : t'.timers = t.timers) (now : Nat) : t.Sleeps now t' :=
  ⟨[], by rw [h, List.append_nil], by simp⟩

theorem sleeps_sleep (t : Tracker) {now due : Nat} (h : now < due) (task : Task) :
    t.Sleeps now (t.sleep due task) :=
  ⟨[(due, task)], rfl, by simpa using h⟩

theorem sleeps_pause (t : Tracker) (now : Nat) (task : Task) (fault : Fault) :
    t.Sleeps now (t.pause now task fault) := by
  dsimp only [pause]
  split
  · exact sleeps_of_eq rfl now
  · exact sleeps_sleep (t.record _) (by omega) task

theorem sleeps_afterMessage (t : Tracker) (now : Nat) (task : Task) (fault? : Option Fault) :
    t.Sleeps now (t.afterMessage now task fault?) := by
  cases fault? with
  | none => exact sleeps_of_eq rfl now
  | some fault => exact sleeps_pause t now task fault

theorem sleeps_afterRouting (t : Tracker) (now : Nat) (task : Task) (instrument : String)
    (result : Except Fault Offer) : t.Sleeps now (t.afterRouting now task instrument result) := by
  cases result with
  | error fault => exact sleeps_pause t now task fault
  | ok offer =>
      cases offer with
      | queued =>
          obtain ⟨ready, hwake⟩ := wakeWorker_frame t instrument
          simp only [afterRouting, hwake]
          exact sleeps_of_eq rfl now
      | _ => exact sleeps_of_eq rfl now

theorem sleeps_finishPeriodic (t : Tracker) (now : Nat) (seen : List String) :
    t.Sleeps now (t.finishPeriodic now seen) := by
  obtain ⟨ready, hconclude⟩ := concludeCycle_frame t now seen
  rcases finishPeriodic_inversion t now seen with ⟨due, hdue, hfinish⟩ | ⟨fault, hfinish⟩
  · rw [hfinish, hconclude]
    exact sleeps_sleep _ hdue .refresher
  · rw [hfinish, hconclude]
    exact sleeps_pause _ now .refresher fault

/-- **Who falls asleep does so until later,** whatever a task does. -/
theorem sleeps_perform (t : Tracker) (now : Nat) (task : Task) :
    t.Sleeps now (t.perform now task) := by
  cases task with
  | tradeEmitter =>
      simp only [perform]
      split
      · exact sleeps_of_eq rfl now
      · exact sleeps_afterMessage _ now .tradeEmitter _
  | diffRouter =>
      simp only [perform]
      split
      · exact sleeps_of_eq rfl now
      · exact sleeps_afterRouting _ now .diffRouter _ _
  | snapshotRouter =>
      simp only [perform]
      split
      · exact sleeps_of_eq rfl now
      · exact sleeps_afterRouting _ now .snapshotRouter _ _
  | refresher =>
      simp only [perform]
      rcases refreshStep_inversion t now with ⟨_, _, -, hstep⟩ |
        ⟨turns, -, -, ⟨due, hdue, hstep⟩ | ⟨seen, hstep⟩⟩
      · rw [hstep]
        exact sleeps_of_eq rfl now
      · rw [hstep]
        exact sleeps_sleep { t with turns } hdue .refresher
      · rw [hstep]
        exact sleeps_finishPeriodic { t with turns } now seen
  | worker instrument serial =>
      simp only [perform]
      split
      · exact sleeps_of_eq rfl now
      · split
        · exact sleeps_afterMessage _ now (.worker instrument serial) _
        · exact sleeps_of_eq rfl now

end Tracker

/-! ### Turns in order -/

/-- **The line for turns is in order:** the periodic cycle is in it at most once, and nobody waits
for a turn that nobody has. -/
structure Turns.Proper (turns : Turns) : Prop where
  once : turns.line.count .periodic ≤ 1
  free : turns.current? = none → turns.waiting = []

namespace Turns.Proper

variable {turns : Turns}

/-- Who has the turn does not wait for it. -/
theorem not_mem_waiting (h : turns.Proper) (held : turns.isHeldBy .periodic = true) :
    .periodic ∉ turns.waiting := by
  cases hcurrent : turns.current? with
  | none => simp [isHeldBy, hcurrent] at held
  | some turn =>
      have honce := h.once
      have hline : turns.line = turn.owner :: turns.waiting := by simp [line, hcurrent]
      rw [isHeldBy, hcurrent, Option.any_some, beq_iff_eq] at held
      rw [hline, held, List.count_cons_self] at honce
      rw [← List.count_eq_zero]
      omega

theorem pass (h : turns.Proper) : turns.pass.Proper := by
  refine ⟨?_, ?_⟩
  · cases hcurrent : turns.current? with
    | none => simp [Turns.pass, h.free hcurrent, line]
    | some turn =>
        have honce := h.once
        rw [line_pass hcurrent, List.count_cons] at honce
        omega
  · intro hfree
    cases hwaiting : turns.waiting <;> simp [Turns.pass, hwaiting] at hfree ⊢

theorem ask (h : turns.Proper) {who : Requester}
    (hwho : turns.line.count .periodic + [who].count .periodic ≤ 1) : (turns.ask who).Proper := by
  refine ⟨?_, ?_⟩
  · rw [line_ask who h.free, List.count_append]
    exact hwho
  · intro hfree
    cases hcurrent : turns.current? <;> simp [Turns.ask, hcurrent] at hfree

theorem begin (h : turns.Proper) (seen : List String) : (turns.begin seen).Proper := by
  refine ⟨by rw [line_begin]; exact h.once, fun hfree => h.free ?_⟩
  simpa [Turns.begin] using hfree

theorem leave (h : turns.Proper) (who : Requester) : (turns.leave who).Proper := by
  unfold Turns.leave
  split
  · exact h.pass
  · have hsub : (turns.waiting.erase who).Sublist turns.waiting := List.erase_sublist
    refine ⟨Nat.le_trans (List.Sublist.count_le _ ?_) h.once, fun hfree => ?_⟩
    · unfold line
      cases turns.current? with
      | none => exact hsub
      | some turn => exact hsub.cons_cons _
    · rw [h.free hfree]
      rfl

/-- The periodic cycle may have the turn if it does not wait for one. -/
theorem of_held (held : turns.isHeldBy .periodic = true) (hwaiting : .periodic ∉ turns.waiting) :
    turns.Proper := by
  cases hcurrent : turns.current? with
  | none => simp [isHeldBy, hcurrent] at held
  | some turn =>
      refine ⟨?_, fun hfree => by cases hcurrent.symm.trans hfree⟩
      rw [line, hcurrent, List.count_cons, List.count_eq_zero.2 hwaiting]
      split <;> omega

end Turns.Proper

namespace Tracker

/-! ### Where the refresher is -/

/-- In how many places the refresher is, in the schedule and in the line for turns. -/
def places (t : Tracker) : Nat :=
  t.scheduled.count .refresher + t.turns.waiting.count .periodic

theorem Adds.places_eq {t t' : Tracker} {added : List Task} (h : t.Adds added t')
    (hturns : t'.turns = t.turns) : t'.places = added.count .refresher + t.places := by
  rw [places, h.count_eq, hturns, Nat.add_assoc, places]

theorem count_refresher_of_workers {tasks : List Task} (h : ∀ task ∈ tasks, task.role = .worker) :
    tasks.count .refresher = 0 := by
  rw [List.count_eq_zero]
  exact fun hmem => absurd (h _ hmem) (by simp [Task.role])

/-- **A refresher that waits for a turn is woken for it.** -/
theorem places_passTurn {t : Tracker} (h : t.places ≤ 1) : t.passTurn.places = t.places := by
  cases hwaiting : t.turns.waiting with
  | nil =>
      have hpass : t.passTurn = { t with turns := { current? := none } } := by
        simp [passTurn, Turns.pass, hwaiting, Turns.isHeldBy]
      rw [hpass, places, places, hwaiting]
      rfl
  | cons next waiting =>
      have hturns : t.turns.pass = { current? := some { owner := next }, waiting } := by
        rw [Turns.pass, hwaiting]
      rw [places, hwaiting, List.count_cons] at h
      by_cases hnext : next = .periodic
      · subst hnext
        rw [if_pos (by simp)] at h
        -- the refresher waited for this turn, so it is not scheduled
        have hnot : Task.refresher ∉ { t with turns := t.turns.pass }.scheduled := by
          have hcount : t.scheduled.count .refresher = 0 := by omega
          exact List.count_eq_zero.1 hcount
        have hadds := adds_wake { t with turns := t.turns.pass } .refresher
        have hpass : t.passTurn = { t with turns := t.turns.pass }.wake .refresher := by
          simp [passTurn, hturns, Turns.isHeldBy]
        rw [if_neg hnot] at hadds
        have hleft : ({ t with turns := t.turns.pass } : Tracker).places + 1 = t.places := by
          rw [places, places, hturns, hwaiting, List.count_cons_self]
          rfl
        obtain ⟨ready, hwake⟩ := wake_frame { t with turns := t.turns.pass } .refresher
        rw [hpass, hadds.places_eq (by rw [hwake]), List.count_singleton_self, ← hleft,
          Nat.add_comm]
      · have hpass : t.passTurn = { t with turns := t.turns.pass } := by
          simp [passTurn, hturns, Turns.isHeldBy, hnext]
        rw [hpass, places, places, hturns, hwaiting, List.count_cons_of_ne hnext]
        rfl

/-- The end of a cycle leaves the refresher where it is, or wakes it. -/
theorem places_concludeCycle {t : Tracker} (h : t.places ≤ 1) (now : Nat) (seen : List String) :
    (t.concludeCycle now seen).2.places = t.places := by
  obtain ⟨directory, board, workers, hworkers, hconclude⟩ := concludeCycle_eq_passTurn t now seen
  have hadds : t.Adds workers { t with directory, board, ready := t.ready ++ workers } :=
    adds_of_ready rfl rfl
  have hplaces := hadds.places_eq rfl
  rw [count_refresher_of_workers hworkers, Nat.zero_add] at hplaces
  rw [hconclude, places_passTurn (by rw [hplaces]; exact h), hplaces]

/-- **A refresher that is in no place when it acts is in one afterwards.** -/
theorem places_refreshStep {t : Tracker} (h : t.places = 0) (now : Nat) :
    (t.refreshStep now).places = 1 := by
  rcases refreshStep_inversion t now with ⟨caller, seen?, hcurrent, hstep⟩ |
    ⟨turns, hheld, hwaiting, hstep⟩
  · -- a caller has the turn, and the refresher waits behind those who wait
    rw [hstep, places, Turns.ask, hcurrent, List.count_append, List.count_singleton_self,
      ← Nat.add_assoc]
    exact congrArg (· + 1) h
  · have hnone : ({ t with turns } : Tracker).places = 0 := by
      rw [places, hwaiting]
      exact h
    rcases hstep with ⟨due, -, hstep⟩ | ⟨seen, hstep⟩
    · rw [hstep, (adds_sleep { t with turns } due .refresher).places_eq rfl, hnone]
      rfl
    · have hconclude := places_concludeCycle (Nat.le_trans (Nat.le_of_eq hnone) (Nat.zero_le 1))
        now seen
      rw [hnone] at hconclude
      rcases finishPeriodic_inversion { t with turns } now seen with ⟨due, -, hfinish⟩ |
        ⟨fault, hfinish⟩
      · rw [hstep, hfinish, (adds_sleep _ due .refresher).places_eq rfl, hconclude]
        rfl
      · have hturns : ∀ t : Tracker, (t.pause now .refresher fault).turns = t.turns := by
          intro t
          obtain ⟨_, _, hafter⟩ := afterMessage_frame t now .refresher (some fault)
          exact congrArg (·.turns) hafter
        rw [hstep, hfinish, (adds_pause _ now .refresher fault).places_eq (hturns _), hconclude]
        rfl

/-- A refresher that waits for no turn leaves the line for turns in order. -/
theorem proper_refreshStep {t : Tracker} (h : t.turns.Proper) (hwaits : .periodic ∉ t.turns.waiting)
    (now : Nat) : (t.refreshStep now).turns.Proper := by
  rcases refreshStep_inversion t now with ⟨caller, seen?, hcurrent, hstep⟩ |
    ⟨turns, hheld, hwaiting, hstep⟩
  · rw [hstep]
    refine h.ask ?_
    simp [Turns.line, hcurrent, List.count_eq_zero.2 hwaits]
  · have hturns : turns.Proper := .of_held hheld (hwaiting ▸ hwaits)
    rcases hstep with ⟨due, -, hstep⟩ | ⟨seen, hstep⟩
    · rw [hstep]
      exact hturns
    · rw [hstep, turns_finishPeriodic]
      exact hturns.pass

/-! ### Moves from outside -/

/-- Passing the turn on wakes nobody but the refresher. -/
theorem adds_passTurn (t : Tracker) :
    ∃ woken, t.Adds woken t.passTurn ∧ ∀ task ∈ woken, task = .refresher := by
  dsimp only [passTurn]
  split
  · refine ⟨_, adds_wake { t with turns := t.turns.pass } .refresher, ?_⟩
    split <;> simp
  · exact ⟨[], .none rfl, by simp⟩

theorem adds_concludeCycle (t : Tracker) (now : Nat) (seen : List String) :
    ∃ added, t.Adds added (t.concludeCycle now seen).2 ∧
      ∀ task ∈ added, task.role = .worker ∨ task = .refresher := by
  obtain ⟨directory, board, workers, hworkers, hconclude⟩ := concludeCycle_eq_passTurn t now seen
  have hstart : t.Adds workers { t with directory, board, ready := t.ready ++ workers } :=
    adds_of_ready rfl rfl
  obtain ⟨woken, hwoken, hrefresher⟩ :=
    adds_passTurn { t with directory, board, ready := t.ready ++ workers }
  rw [hconclude]
  refine ⟨woken ++ workers, hstart.trans hwoken, fun task htask => ?_⟩
  rcases List.mem_append.1 htask with htask | htask
  · exact .inr (hrefresher task htask)
  · exact .inl (hworkers task htask)

/-- The move has to do with cycles on demand, with workers that are lost, with the directory or with
what has been published. -/
def Move.IsAside : Move → Prop
  | .perform .. | .fire _ | .start _ | .stop | .drop | .send _ => False
  | _ => True

/-- Such a move concerns neither the streams nor the timers. -/
theorem move_frame_of_isAside (t : Tracker) {a : Move} (h : a.IsAside) :
    ∃ board directory turns ready resyncTaken,
      t.move a = { t with board, directory, turns, ready, resyncTaken } := by
  cases a with
  | ask caller =>
      simp only [move]
      split <;> exact ⟨_, _, _, _, _, rfl⟩
  | begin caller =>
      simp only [move]
      split
      · split <;> exact ⟨_, _, _, _, _, rfl⟩
      · exact ⟨_, _, _, _, _, rfl⟩
  | conclude now caller =>
      simp only [move]
      split
      · split
        · obtain ⟨ready, hconclude⟩ := concludeCycle_frame t now _
          exact ⟨_, _, _, _, _, hconclude⟩
        · exact ⟨_, _, _, _, _, rfl⟩
      · exact ⟨_, _, _, _, _, rfl⟩
  | leave caller =>
      simp only [move, leaveTurn]
      split
      · obtain ⟨ready, hpass⟩ := passTurn_frame t
        exact ⟨_, _, _, _, _, hpass⟩
      · exact ⟨_, _, _, _, _, rfl⟩
  | refreshDetached now =>
      simp only [move, refreshDetached]
      split
      · split
        · exact ⟨_, _, _, _, _, rfl⟩
        · split <;> exact ⟨_, _, _, _, _, rfl⟩
      · exact ⟨_, _, _, _, _, rfl⟩
  | loseWorker instrument => exact ⟨_, _, _, _, _, rfl⟩
  | changeDirectory directory => exact ⟨_, _, _, _, _, rfl⟩
  | takeResyncReader => exact ⟨_, _, _, _, _, rfl⟩
  | takeResyncs =>
      simp only [move, takeResyncs]
      split <;> exact ⟨_, _, _, _, _, rfl⟩
  | takeLog => exact ⟨_, _, _, _, _, rfl⟩
  | _ => exact h.elim

/-- It may start workers and wake the refresher. -/
theorem adds_of_isAside (t : Tracker) {a : Move} (h : a.IsAside) :
    ∃ added, t.Adds added (t.move a) ∧ ∀ task ∈ added, task.role = .worker ∨ task = .refresher := by
  have hsame : (t.move a).scheduled = t.scheduled →
      ∃ added, t.Adds added (t.move a) ∧
        ∀ task ∈ added, task.role = .worker ∨ task = .refresher :=
    fun hsame => ⟨[], .none hsame, by simp⟩
  cases a with
  | ask caller =>
      refine hsame ?_
      simp only [move]
      split <;> rfl
  | begin caller =>
      refine hsame ?_
      simp only [move]
      split
      · split <;> rfl
      · rfl
  | conclude now caller =>
      simp only [move]
      split
      · split
        · exact adds_concludeCycle t now _
        · exact ⟨[], .none rfl, by simp⟩
      · exact ⟨[], .none rfl, by simp⟩
  | leave caller =>
      simp only [move, leaveTurn]
      split
      · obtain ⟨woken, hadds, hrefresher⟩ := adds_passTurn t
        exact ⟨woken, hadds, fun task htask => .inr (hrefresher task htask)⟩
      · exact ⟨[], .none rfl, by simp⟩
  | refreshDetached now =>
      refine hsame ?_
      simp only [move, refreshDetached]
      split
      · split
        · rfl
        · split <;> rfl
      · rfl
  | takeResyncs =>
      refine hsame ?_
      simp only [move, takeResyncs]
      split <;> rfl
  | loseWorker instrument => exact hsame rfl
  | changeDirectory directory => exact hsame rfl
  | takeResyncReader => exact hsame rfl
  | takeLog => exact hsame rfl
  | _ => exact h.elim

/-! ### The schedule in order -/

/-- **The schedule is in order:** in a running tracker a reader is scheduled at most once, and the
refresher is in one place; in another tracker they are in none. -/
structure Orderly (t : Tracker) : Prop where
  readers : ∀ stream : Kind, t.scheduled.count stream.reader ≤ if t.phase = .running then 1 else 0
  refresher : t.places = if t.phase = .running then 1 else 0
  turns : t.turns.Proper

theorem count_reader_of_role {tasks : List Task}
    (h : ∀ task ∈ tasks, task.role = .worker ∨ task = .refresher) (stream : Kind) :
    tasks.count stream.reader = 0 := by
  rw [List.count_eq_zero]
  intro hmem
  rcases h _ hmem with hrole | hrefresher
  · exact stream.role_reader_ne hrole
  · exact stream.reader_ne_refresher hrefresher

theorem adds_refreshStep (t : Tracker) (now : Nat) :
    ∃ added, t.Adds added (t.refreshStep now) ∧
      ∀ task ∈ added, task.role = .worker ∨ task = .refresher := by
  rcases refreshStep_inversion t now with ⟨_, _, -, hstep⟩ |
    ⟨turns, -, -, ⟨due, -, hstep⟩ | ⟨seen, hstep⟩⟩
  · exact ⟨[], .none (by rw [hstep]; rfl), by simp⟩
  · rw [hstep]
    exact ⟨_, adds_sleep { t with turns } due .refresher, by simp⟩
  · obtain ⟨added, hadded, hrole⟩ := adds_concludeCycle { t with turns } now seen
    have hlast : ∀ task ∈ Task.refresher :: added, task.role = .worker ∨ task = .refresher := by
      intro task htask
      rcases List.mem_cons.1 htask with rfl | htask
      · exact .inr rfl
      · exact hrole task htask
    rw [hstep]
    rcases finishPeriodic_inversion { t with turns } now seen with ⟨due, -, hfinish⟩ |
      ⟨fault, hfinish⟩
    · rw [hfinish]
      exact ⟨_, hadded.trans (adds_sleep _ due .refresher), hlast⟩
    · rw [hfinish]
      exact ⟨_, hadded.trans (adds_pause _ now .refresher fault), hlast⟩

/-- **Only a reader itself schedules it again,** and once. -/
theorem count_reader_perform (t : Tracker) (now : Nat) (task : Task) (stream : Kind) :
    (t.perform now task).scheduled.count stream.reader ≤
      [task].count stream.reader + t.scheduled.count stream.reader := by
  by_cases h : task = .refresher
  · subst h
    obtain ⟨added, hadds, hrole⟩ := adds_refreshStep t now
    have hcount := hadds.count_eq stream.reader
    rw [count_reader_of_role hrole] at hcount
    simp only [perform]
    omega
  · rcases adds_perform t now h with ⟨-, hperform⟩ | ⟨woken, hadds, hrole⟩
    · rw [hperform]
      exact Nat.le_add_left _ _
    · have hcount := hadds.count_eq stream.reader
      rw [List.count_cons, count_reader_of_role (fun task htask => .inl (hrole task htask))]
        at hcount
      rw [hcount, List.count_singleton]
      omega

namespace Orderly

variable {t t' : Tracker}

/-- What does not concern the schedule leaves it in order. -/
theorem congr (h : t.Orderly) (hscheduled : t'.scheduled.Perm t.scheduled)
    (hturns : t'.turns = t.turns) (hphase : t'.phase = t.phase) : t'.Orderly where
  readers stream := by
    rw [hscheduled.count_eq, hphase]
    exact h.readers stream
  refresher := by
    rw [places, hscheduled.count_eq, hturns, hphase]
    exact h.refresher
  turns := hturns ▸ h.turns

theorem places_le_one (h : t.Orderly) : t.places ≤ 1 := by
  rw [h.refresher]
  split <;> omega

/-- Nothing is scheduled that does not run. -/
theorem of_ended (hscheduled : t.scheduled = []) (hturns : t.turns = .free)
    (hphase : t.phase ≠ .running) : t.Orderly where
  readers stream := by simp [hscheduled]
  refresher := by simp [places, hscheduled, hturns, hphase, Turns.free]
  turns := by
    rw [hturns]
    exact ⟨by simp, fun _ => rfl⟩

/-- The end of a cycle may start workers and wake the refresher. -/
theorem concludeCycle (h : t.Orderly) (now : Nat) (seen : List String) :
    (t.concludeCycle now seen).2.Orderly := by
  obtain ⟨added, hadds, hrole⟩ := adds_concludeCycle t now seen
  obtain ⟨ready, hframe⟩ := concludeCycle_frame t now seen
  have hphase : (t.concludeCycle now seen).2.phase = t.phase := by rw [hframe]
  refine ⟨fun stream => ?_, ?_, ?_⟩
  · rw [hadds.count_eq, count_reader_of_role hrole, Nat.zero_add, hphase]
    exact h.readers stream
  · rw [places_concludeCycle h.places_le_one, hphase]
    exact h.refresher
  · rw [hframe]
    exact h.turns.pass

theorem askTurn (h : t.Orderly) (caller : Nat) : (t.askTurn (.caller caller)).Orderly := by
  have hplaces : (t.askTurn (.caller caller)).places = t.places := by
    rw [places, places, Tracker.askTurn, Turns.ask]
    split <;> simp [scheduled]
  exact ⟨h.readers, hplaces.trans h.refresher, h.turns.ask (by simpa using h.turns.once)⟩

theorem leaveTurn (h : t.Orderly) (caller : Nat) : (t.leaveTurn (.caller caller)).Orderly := by
  unfold Tracker.leaveTurn
  split
  · obtain ⟨woken, hadds, hrefresher⟩ := adds_passTurn t
    obtain ⟨ready, hframe⟩ := passTurn_frame t
    have hphase : t.passTurn.phase = t.phase := by rw [hframe]
    refine ⟨fun stream => ?_, ?_, ?_⟩
    · rw [hadds.count_eq, count_reader_of_role (fun task htask => .inr (hrefresher task htask)),
        Nat.zero_add, hphase]
      exact h.readers stream
    · rw [places_passTurn h.places_le_one, hphase]
      exact h.refresher
    · rw [hframe]
      exact h.turns.pass
  next hnot =>
    refine ⟨h.readers, ?_, h.turns.leave _⟩
    have hcount : (t.turns.waiting.erase (.caller caller)).count .periodic =
        t.turns.waiting.count .periodic :=
      List.count_erase_of_ne (by simp)
    rw [places, Turns.leave, if_neg hnot, hcount]
    exact h.refresher

/-- **A task acts** that has been taken out of the schedule for its turn. -/
theorem perform (h : t.Orderly) {rest : Tracker} {task : Task} (hback : rest.Adds [task] t)
    (hturns : rest.turns = t.turns) (hphase : rest.phase = t.phase) (now : Nat) :
    (rest.perform now task).Orderly := by
  obtain ⟨_, _, _, _, hframe⟩ := perform_frame rest now task
  have hphase' : (rest.perform now task).phase = t.phase := by rw [hframe, hphase]
  have hplaces := hback.places_eq hturns.symm
  have hreaders : ∀ stream : Kind, (rest.perform now task).scheduled.count stream.reader ≤
      if (rest.perform now task).phase = .running then 1 else 0 := by
    intro stream
    have hcount := count_reader_perform rest now task stream
    rw [← hback.count_eq] at hcount
    rw [hphase']
    exact Nat.le_trans hcount (h.readers stream)
  by_cases hrefresher : task = .refresher
  · subst hrefresher
    -- it was in one place, from which it has been taken
    have hone := h.places_le_one
    rw [List.count_singleton_self] at hplaces
    have hnone : rest.places = 0 := by omega
    have hwaits : Requester.periodic ∉ rest.turns.waiting := by
      rw [places] at hnone
      exact List.count_eq_zero.1 (Nat.add_eq_zero_iff.1 hnone).2
    refine ⟨hreaders, ?_, proper_refreshStep (hturns ▸ h.turns) hwaits now⟩
    rw [hphase', ← h.refresher, hplaces, hnone]
    exact places_refreshStep hnone now
  · have hturns' := turns_perform_of_ne_refresher rest now hrefresher
    have hsame : (rest.perform now task).places = rest.places := by
      rcases adds_perform rest now hrefresher with ⟨-, hperform⟩ | ⟨woken, hadds, hrole⟩
      · rw [hperform]
      · rw [hadds.places_eq hturns', List.count_cons_of_ne hrefresher,
          count_refresher_of_workers hrole, Nat.zero_add]
    rw [List.count_singleton, if_neg (by simpa using hrefresher), Nat.zero_add] at hplaces
    refine ⟨hreaders, ?_, by rw [hturns', hturns]; exact h.turns⟩
    rw [hphase', hsame, ← hplaces]
    exact h.refresher

/-- A message is sent, and the reader of its stream is woken. -/
theorem push (h : t.Orderly) (stream : Kind) (m : Message) : (t.push stream m).Orderly := by
  rw [push_eq]
  generalize htold : t.setStream stream (t.stream stream ++ [m]) = told
  have hphase : told.phase = t.phase := by rw [← htold, phase_setStream]
  have htold : told.Orderly := by
    rw [← htold]
    exact h.congr (by simp) (by simp) (by simp)
  split
  case isFalse => exact htold
  case isTrue hrunning =>
    obtain ⟨ready, hwake⟩ := wake_frame told stream.reader
    have hadds := adds_wake told stream.reader
    have hsame : (told.wake stream.reader).phase = told.phase := by rw [hwake]
    refine ⟨fun stream' => ?_, ?_, by rw [hwake]; exact htold.turns⟩
    · rw [hsame, hadds.count_eq]
      have hcount := htold.readers stream'
      split
      next => simpa using hcount
      next hnot =>
        by_cases hother : stream.reader = stream'.reader
        · rw [hother] at hnot ⊢
          rw [List.count_eq_zero.2 hnot, hphase, if_pos hrunning, List.count_singleton_self]
        · rw [List.count_singleton, if_neg (by simpa using hother), Nat.zero_add]
          exact hcount
    · rw [hsame, hadds.places_eq (by rw [hwake]), ← htold.refresher]
      split <;> simp

/-- **Every move leaves the schedule in order.** -/
theorem move (h : t.Orderly) (a : Move) : (t.move a).Orderly := by
  cases a with
  | perform now task =>
      simp only [Tracker.move]
      split
      case isTrue htask => exact h.perform (adds_of_mem_ready htask) rfl rfl now
      case isFalse => exact h
  | fire now => exact h.congr (adds_fire t now) rfl rfl
  | start now =>
      simp only [Tracker.move, start]
      cases hphase : t.phase with
      | idle =>
          have hnot : ¬ t.phase = .running := by simp [hphase]
          have hadds : t.Adds [.tradeEmitter, .diffRouter, .snapshotRouter, .refresher]
              { t with
                phase := .running
                ready := t.ready ++ [.tradeEmitter, .diffRouter, .snapshotRouter, .refresher] } :=
            adds_of_ready rfl rfl
          have hreaders := h.readers
          have hplaces := h.refresher
          simp only [hnot, if_false] at hreaders hplaces
          refine ⟨fun stream => ?_, ?_, h.turns⟩
          · have hcount := hadds.count_eq stream.reader
            have hstream := hreaders stream
            have hone : List.count stream.reader
                [.tradeEmitter, .diffRouter, .snapshotRouter, .refresher] = 1 := by
              cases stream <;> rfl
            simp only [if_true]
            exact Nat.le_trans (Nat.le_of_eq hcount) (by omega)
          · exact (hadds.places_eq rfl).trans (by rw [hplaces]; rfl)
      | _ => exact h
  | stop =>
      simp only [Tracker.move, stop]
      cases t.phase with
      | idle => exact of_ended rfl rfl (by simp)
      | running => exact of_ended rfl rfl (by simp [record])
      | _ => exact h
  | drop => exact of_ended rfl rfl (by simp [Tracker.move, drop])
  | send messages =>
      simp only [Tracker.move, send]
      split
      · exact List.foldlRecOn messages _ h fun t ht m _ => ht.push m.1 m.2
      · exact h
  | ask caller =>
      simp only [Tracker.move]
      split
      · exact h.askTurn caller
      · exact h
  | begin caller =>
      simp only [Tracker.move]
      split
      · split
        · exact ⟨h.readers, h.refresher, h.turns.begin _⟩
        · exact h
      · exact h
  | conclude now caller =>
      simp only [Tracker.move]
      split
      · split
        · exact h.concludeCycle now _
        · exact h
      · exact h
  | leave caller => exact h.leaveTurn caller
  | refreshDetached now =>
      simp only [Tracker.move, refreshDetached]
      split
      · split
        · exact h
        · split <;> exact h.congr (.refl _) rfl rfl
      · exact h
  | takeResyncs =>
      simp only [Tracker.move, takeResyncs]
      split <;> exact h.congr (.refl _) rfl rfl
  | _ => exact h.congr (.refl _) rfl rfl

theorem moves (h : t.Orderly) (as : List Move) : (t.moves as).Orderly := by
  induction as generalizing t with
  | nil => exact h
  | cons a as ih => exact ih (h.move a)

end Orderly

/-- **The schedule of a tracker is in order at any time.** -/
theorem orderly_of_moves {config : Config} {directory : Directory} {t : Tracker}
    (h : new config directory = .ok t) (as : List Move) : (t.moves as).Orderly := by
  refine Orderly.moves ?_ as
  rw [eq_of_new h]
  exact .of_ended rfl rfl (by simp)

end Tracker

end MarketDepth
