/-
**Running dry.**

While the clock stands still, the ready tasks act in turn until none is left.  This ends, because
each step leaves less to do.  The work is measured by two numbers of which the first counts more.
The first bounds the refresh cycles that can still end at this instant: one for the refresher if it
is ready or waits for a turn, and one for each look-up that will fail and may be tried again at
once.  The second counts messages and ready tasks; a message in a stream weighs three, since taking
it may put one message into a queue and one worker into the ready line.

Main definitions:

* `MarketDepth.Tracker.cycles`, `MarketDepth.Tracker.backlog` — the two numbers;
* `MarketDepth.Tracker.runDry` — **lets the ready tasks act until none is left.**

Main results:

* `MarketDepth.Tracker.step?_decreases` — **each step leaves less to do**;
* `MarketDepth.Tracker.ready_runDry` — afterwards no task is ready.
-/

import MarketDepth.Tracker.Step

set_option relaxedAutoImplicit false
set_option autoImplicit false

namespace MarketDepth.Tracker

/-! ### How much there is to do -/

/-- How many refresh cycles can still end before the clock moves. -/
def cycles (t : Tracker) : Nat :=
  t.ready.count .refresher + t.turns.waiting.count .periodic + t.directory.failures

/-- How much the messages and the ready tasks weigh. -/
def backlog (t : Tracker) : Nat :=
  3 * (t.trades.length + t.diffs.length + t.snapshots.length) + t.board.queued + t.ready.length

/-! ### Moves of tasks -/

theorem cycles_wake_le (t : Tracker) (task : Task) :
    (t.wake task).cycles ≤ t.cycles + [task].count .refresher := by
  unfold wake
  split
  · exact Nat.le_add_right _ _
  · simp only [cycles, List.count_append]; omega

theorem backlog_wake_le (t : Tracker) (task : Task) : (t.wake task).backlog ≤ t.backlog + 1 := by
  unfold wake
  split
  · exact Nat.le_succ _
  · simp only [backlog, List.length_append, List.length_singleton]; omega

theorem cycles_goOn (t : Tracker) (task : Task) :
    (t.goOn task).cycles = t.cycles + [task].count .refresher := by
  simp only [cycles, goOn, List.count_cons, List.count_nil]; omega

theorem backlog_goOn (t : Tracker) (task : Task) : (t.goOn task).backlog = t.backlog + 1 := by
  simp only [backlog, goOn, List.length_cons]; omega

theorem cycles_pause_le (t : Tracker) (now : Nat) (task : Task) (fault : Fault) :
    (t.pause now task fault).cycles ≤ t.cycles + [task].count .refresher := by
  dsimp only [pause]
  split
  · exact Nat.le_of_eq (cycles_goOn _ task)
  · exact Nat.le_add_right _ _

theorem backlog_pause_le (t : Tracker) (now : Nat) (task : Task) (fault : Fault) :
    (t.pause now task fault).backlog ≤ t.backlog + 1 := by
  dsimp only [pause]
  split
  · exact Nat.le_of_eq (backlog_goOn _ task)
  · exact Nat.le_succ _

theorem cycles_wakeWorker_le (t : Tracker) (instrument : String) :
    (t.wakeWorker instrument).cycles ≤ t.cycles := by
  unfold wakeWorker
  split
  next r _ => simpa using cycles_wake_le t (.worker instrument r.serial)
  · exact Nat.le_refl _

theorem backlog_wakeWorker_le (t : Tracker) (instrument : String) :
    (t.wakeWorker instrument).backlog ≤ t.backlog + 1 := by
  unfold wakeWorker
  split
  · exact backlog_wake_le t _
  · exact Nat.le_succ _

theorem cycles_afterMessage_le (t : Tracker) (now : Nat) (task : Task) (fault? : Option Fault) :
    (t.afterMessage now task fault?).cycles ≤ t.cycles + [task].count .refresher := by
  cases fault? with
  | none => exact Nat.le_of_eq (cycles_goOn t task)
  | some fault => exact cycles_pause_le t now task fault

theorem backlog_afterMessage_le (t : Tracker) (now : Nat) (task : Task)
    (fault? : Option Fault) : (t.afterMessage now task fault?).backlog ≤ t.backlog + 1 := by
  cases fault? with
  | none => exact Nat.le_of_eq (backlog_goOn t task)
  | some fault => exact backlog_pause_le t now task fault

theorem cycles_afterRouting_le (t : Tracker) (now : Nat) (task : Task) (instrument : String)
    (result : Except Fault Offer) :
    (t.afterRouting now task instrument result).cycles ≤
      t.cycles + [task].count .refresher := by
  unfold afterRouting
  split
  · rw [cycles_goOn]
    exact Nat.add_le_add_right (cycles_wakeWorker_le t instrument) _
  · exact Nat.le_of_eq (cycles_goOn t task)
  · exact cycles_pause_le t now task _

theorem backlog_afterRouting_le (t : Tracker) (now : Nat) (task : Task) (instrument : String)
    (result : Except Fault Offer) :
    (t.afterRouting now task instrument result).backlog ≤ t.backlog + 2 := by
  unfold afterRouting
  split
  · rw [backlog_goOn]
    exact Nat.add_le_add_right (backlog_wakeWorker_le t instrument) 1
  · rw [backlog_goOn]; omega
  · exact Nat.le_succ_of_le (backlog_pause_le t now task _)

/-! ### Refresh cycles -/

theorem cycles_passTurn_le (t : Tracker) : t.passTurn.cycles ≤ t.cycles := by
  unfold passTurn
  cases hw : t.turns.waiting with
  | nil =>
      simp [Turns.pass, hw, Turns.isHeldBy, cycles]
  | cons next waiting =>
      simp only [Turns.pass, hw, Turns.isHeldBy, Option.any_some]
      split
      next held =>
        have held : next = .periodic := by simpa using held
        subst held
        refine Nat.le_trans (cycles_wake_le _ _) ?_
        simp only [cycles, hw, List.count_cons_self, List.count_nil]
        omega
      next =>
        simp only [cycles, hw, List.count_cons]
        omega

theorem cycles_spawnWorkers (t : Tracker) (registrations : List Registration) :
    (t.spawnWorkers registrations).cycles = t.cycles := by
  have none : (registrations.map fun r => Task.worker r.instrument r.serial).count .refresher
      = 0 := by
    induction registrations with
    | nil => rfl
    | cons r rest ih => simpa [List.count_cons] using ih
  simp only [cycles, spawnWorkers, List.count_append, none, Nat.add_zero]

/-- A cycle that ends well leaves no more to do, one that fails leaves one cycle less. -/
theorem cycles_concludeCycle (t : Tracker) (now : Nat) (seen : List String) :
    match t.concludeCycle now seen with
    | (.ok _, t') => t'.cycles ≤ t.cycles
    | (.error _, t') => t'.cycles + 1 ≤ t.cycles := by
  unfold concludeCycle
  rcases Directory.lookup_cases t.directory with h | ⟨fault, after, h, fewer⟩
  · simp only [h]
    refine Nat.le_trans (cycles_passTurn_le _) ?_
    rw [cycles_spawnWorkers]
    exact Nat.le_refl _
  · simp only [h]
    have := cycles_passTurn_le { t with directory := after }
    simp only [cycles] at this ⊢
    omega

theorem cycles_finishPeriodic_le (t : Tracker) (now : Nat) (seen : List String) :
    (t.finishPeriodic now seen).cycles ≤ t.cycles := by
  have bound := cycles_concludeCycle t now seen
  unfold finishPeriodic
  split
  next t' h => rw [h] at bound; exact bound
  next fault t' h =>
    rw [h] at bound
    exact Nat.le_trans (cycles_pause_le t' now .refresher fault) bound

theorem cycles_beginPeriodic_le (t : Tracker) (now : Nat) :
    (t.beginPeriodic now).cycles ≤ t.cycles := by
  dsimp only [beginPeriodic]
  split
  · exact Nat.le_trans (cycles_finishPeriodic_le _ now _) (Nat.le_refl _)
  · exact Nat.le_refl _

/-- The refresher gets on with a cycle, or waits for a turn and leaves the ready line. -/
theorem refreshStep_cases (t : Tracker) (now : Nat) :
    (t.refreshStep now).cycles ≤ t.cycles ∨
      (t.refreshStep now).cycles = t.cycles + 1 ∧ (t.refreshStep now).backlog = t.backlog := by
  unfold refreshStep
  split
  · exact .inl (cycles_finishPeriodic_le t now _)
  · exact .inl (cycles_beginPeriodic_le t now)
  next h =>
    refine .inr ⟨?_, rfl⟩
    simp only [cycles, Turns.ask, h, List.count_append, List.count_singleton_self]
    omega
  next h =>
    refine .inl (Nat.le_trans (cycles_beginPeriodic_le _ now) ?_)
    simp only [cycles, Turns.ask, h]
    exact Nat.le_refl _

/-! ### Each step leaves less to do -/

/-- What a task does that is not the refresher: no cycle comes closer, and the messages and ready
tasks weigh less than with the task still in line. -/
theorem perform_of_ne_refresher (t : Tracker) (now : Nat) {task : Task}
    (h : task ≠ .refresher) :
    (t.perform now task).cycles ≤ t.cycles ∧ (t.perform now task).backlog ≤ t.backlog := by
  have none : [task].count .refresher = 0 := by simp [h]
  cases task with
  | refresher => exact absurd rfl h
  | tradeEmitter =>
      simp only [perform]
      split
      · exact ⟨Nat.le_refl _, Nat.le_refl _⟩
      next m trades hm =>
        have less := Board.queued_emitTrade t.board now m
        have a := cycles_afterMessage_le
          { t with trades, board := (t.board.emitTrade now m).2 } now .tradeEmitter
          (t.board.emitTrade now m).1
        have b := backlog_afterMessage_le
          { t with trades, board := (t.board.emitTrade now m).2 } now .tradeEmitter
          (t.board.emitTrade now m).1
        rw [none] at a
        refine ⟨a, Nat.le_trans b ?_⟩
        simp only [backlog, hm, List.length_cons, less]
        omega
  | diffRouter =>
      simp only [perform]
      split
      · exact ⟨Nat.le_refl _, Nat.le_refl _⟩
      next m diffs hm =>
        have more := Board.queued_routeDiff_le t.board now m
        have a := cycles_afterRouting_le
          { t with diffs, board := (t.board.routeDiff now m).2 } now .diffRouter m.instrument
          (t.board.routeDiff now m).1
        have b := backlog_afterRouting_le
          { t with diffs, board := (t.board.routeDiff now m).2 } now .diffRouter m.instrument
          (t.board.routeDiff now m).1
        rw [none] at a
        refine ⟨a, Nat.le_trans b ?_⟩
        simp only [backlog, hm, List.length_cons]
        omega
  | snapshotRouter =>
      simp only [perform]
      split
      · exact ⟨Nat.le_refl _, Nat.le_refl _⟩
      next m snapshots hm =>
        have more := Board.queued_routeSnapshot_le t.board m
        have a := cycles_afterRouting_le
          { t with snapshots, board := (t.board.routeSnapshot m).2 } now .snapshotRouter
          m.instrument (t.board.routeSnapshot m).1
        have b := backlog_afterRouting_le
          { t with snapshots, board := (t.board.routeSnapshot m).2 } now .snapshotRouter
          m.instrument (t.board.routeSnapshot m).1
        rw [none] at a
        refine ⟨a, Nat.le_trans b ?_⟩
        simp only [backlog, hm, List.length_cons]
        omega
  | worker instrument serial =>
      simp only [perform]
      split
      · exact ⟨Nat.le_refl _, Nat.le_refl _⟩
      next r hr =>
        split
        next mine =>
          obtain ⟨m, inbox, hm⟩ := List.exists_cons_of_ne_nil mine.2
          have less : (t.board.work now instrument).2.queued + 1 = t.board.queued :=
            Board.queued_work hr hm
          have a := cycles_afterMessage_le
            { t with board := (t.board.work now instrument).2 } now (.worker instrument serial)
            (t.board.work now instrument).1
          have b := backlog_afterMessage_le
            { t with board := (t.board.work now instrument).2 } now (.worker instrument serial)
            (t.board.work now instrument).1
          rw [none] at a
          refine ⟨a, Nat.le_trans b ?_⟩
          simp only [backlog]
          omega
        · exact ⟨Nat.le_refl _, Nat.le_refl _⟩

/-- **Each step leaves less to do.** -/
theorem step?_decreases {t t' : Tracker} {now : Nat} (h : t.step? now = some t') :
    t'.cycles < t.cycles ∨ t'.cycles = t.cycles ∧ t'.backlog < t.backlog := by
  unfold step? at h
  split at h
  · cases h
  next task ready hready =>
    cases h
    have weight : t.backlog = { t with ready }.backlog + 1 := by
      simp only [backlog, hready, List.length_cons]; omega
    by_cases hr : task = .refresher
    · subst hr
      have count : t.cycles = { t with ready }.cycles + 1 := by
        simp only [cycles, hready, List.count_cons_self]; omega
      rcases refreshStep_cases { t with ready } now with fewer | ⟨same, lighter⟩
      · left; simp only [perform]; omega
      · right; simp only [perform]; omega
    · have count : t.cycles = { t with ready }.cycles := by
        simp [cycles, hready, hr]
      have := perform_of_ne_refresher { t with ready } now hr
      omega

/-! ### Running dry -/

/-- **Lets the ready tasks act until none is left.** -/
def runDry (t : Tracker) (now : Nat) : Tracker :=
  match _h : t.step? now with
  | none => t
  | some t' => t'.runDry now
termination_by (t.cycles, t.backlog)
decreasing_by exact Prod.lex_def.2 (step?_decreases _h)

theorem ready_of_step?_eq_none {t : Tracker} {now : Nat} (h : t.step? now = none) :
    t.ready = [] := by
  unfold step? at h
  split at h
  next hr => exact hr
  · cases h

/-- Afterwards no task is ready. -/
theorem ready_runDry (t : Tracker) (now : Nat) : (t.runDry now).ready = [] := by
  fun_induction runDry t now with
  | case1 t h => exact ready_of_step?_eq_none h
  | case2 t t' h ih => exact ih

end MarketDepth.Tracker
