/-
**Trackers in any order of events.**

A tracker moves when one of its ready tasks acts, when time passes, or when somebody outside does
something: starts or stops it, sends messages, runs a refresh cycle, changes the directory.  Here
any ready task may act next and anything may happen at any time, so that all that a scheduler can
do is among the lists of moves (see `MarketDepth.Tracker.settles_of_session` for how trackers are
run).  Every move amounts to steps on the board.

Main definitions:

* `MarketDepth.Tracker.Move`, `MarketDepth.Tracker.move`, `MarketDepth.Tracker.moves` — moves and
  lists of them;
* `MarketDepth.Tracker.stepsOf`, `MarketDepth.Tracker.trace` — what they do to the board;
* `MarketDepth.Tracker.fates` — what became of the messages for a registration.

Main results:

* `MarketDepth.Tracker.perform_frame`, `MarketDepth.Tracker.concludeCycle_frame` — what a task and
  the end of a cycle are concerned with;
* `MarketDepth.Tracker.board_moves` — **the board after a list of moves is the board after its
  trace.**
-/

import MarketDepth.Proofs.Runs
import MarketDepth.Tracker.OnDemand
import MarketDepth.Tracker.Control

set_option relaxedAutoImplicit false
set_option autoImplicit false

namespace MarketDepth

namespace Tracker

/-! ### Moves -/

/-- **A move of a tracker,** with everything that it depends on besides the tracker. -/
inductive Move where
  /-- A ready task acts. -/
  | perform (now : Nat) (task : Task)
  /-- The timers that are due fire. -/
  | fire (now : Nat)
  | start (now : Nat)
  | stop
  | drop
  /-- Messages are sent, each to the stream of a kind. -/
  | send (messages : List (Kind × Message))
  /-- A caller asks for a refresh cycle. -/
  | ask (caller : Nat)
  /-- The cycle of the caller whose turn it is begins. -/
  | begin (caller : Nat)
  /-- It ends. -/
  | conclude (now caller : Nat)
  /-- A caller gives up. -/
  | leave (caller : Nat)
  /-- A cycle runs whose new workers do not outlive it. -/
  | refreshDetached (now : Nat)
  /-- The worker of an instrument terminates. -/
  | loseWorker (instrument : String)
  | changeDirectory (directory : Directory)
  | takeResyncReader
  | takeResyncs
  | takeLog

/-- Cycles can be asked for. -/
def isServing (t : Tracker) : Bool :=
  match t.phase with
  | .idle | .running => true
  | .stopped _ | .dropped => false

theorem isStopped_of_isServing {t : Tracker} (h : t.isServing = true) : t.isStopped = false := by
  unfold isServing at h
  unfold isStopped
  split at h <;> simp_all

/-- The tracker after a move.  A move that is not possible changes nothing. -/
def move (t : Tracker) : Move → Tracker
  | .perform now task =>
      if task ∈ t.ready then { t with ready := t.ready.erase task }.perform now task else t
  | .fire now => t.fire now
  | .start now =>
      match t.start now with
      | .ok t => t
      | .error _ => t
  | .stop => t.stop
  | .drop => t.drop
  | .send messages => (t.send messages).2
  | .ask caller => if t.isServing then t.askTurn (.caller caller) else t
  | .begin caller =>
      match t.turns.current? with
      | some { owner, seen? := none } =>
          if owner = .caller caller then { t with turns := t.turns.begin t.board.trackedNames }
          else t
      | _ => t
  | .conclude now caller =>
      match t.turns.current? with
      | some { owner, seen? := some seen } =>
          if owner = .caller caller then (t.concludeCycle now seen).2 else t
      | _ => t
  | .leave caller => t.leaveTurn (.caller caller)
  | .refreshDetached now =>
      if t.isServing ∧ t.turns.current? = none then (t.refreshDetached now).2 else t
  | .loseWorker instrument => { t with board := t.board.loseWorker instrument }
  | .changeDirectory directory => { t with directory }
  | .takeResyncReader => t.takeResyncReader.2
  | .takeResyncs => t.takeResyncs.2
  | .takeLog => t.takeLog.2

/-- **The tracker after a list of moves.** -/
def moves (t : Tracker) (as : List Move) : Tracker :=
  as.foldl move t

@[simp] theorem moves_nil (t : Tracker) : t.moves [] = t := rfl

theorem moves_append (t : Tracker) (as as' : List Move) :
    t.moves (as ++ as') = (t.moves as).moves as' :=
  List.foldl_append

theorem moves_concat (t : Tracker) (as : List Move) (a : Move) :
    t.moves (as ++ [a]) = (t.moves as).move a :=
  moves_append t as [a]

/-! ### What moves do to the board -/

end Tracker

/-- What a task logs about a message that went wrong. -/
def Task.faultSteps (task : Task) (config : Config) (fault? : Option Fault) : List Board.Step :=
  fault?.toList.map fun fault => .record [.failed task.role fault config.retryDelay]

/-- The fault in a router's answer. -/
def faultOf? : Except Fault Offer → Option Fault
  | .ok _ => none
  | .error fault => some fault

namespace Tracker

/-- What the end of a cycle does to the board. -/
def concludeSteps (t : Tracker) (now : Nat) (live : Bool) (seen : List String) :
    List Board.Step :=
  match t.directory.lookup.1 with
  | .ok found => [.converge now live seen found]
  | .error _ => []

/-- What the end of the refresher's cycle does to it. -/
def finishSteps (t : Tracker) (now : Nat) (seen : List String) : List Board.Step :=
  match t.directory.lookup.1 with
  | .ok found => [.converge now true seen found]
  | .error fault => Task.refresher.faultSteps t.board.config (some fault)

/-- What the refresher does to it as its cycle begins. -/
def beginSteps (t : Tracker) (now : Nat) : List Board.Step :=
  if t.directory.delay = 0 then t.finishSteps now t.board.trackedNames else []

/-- What a task does to the board. -/
def stepsOfTask (t : Tracker) (now : Nat) : Task → List Board.Step
  | .tradeEmitter =>
      match t.trades with
      | [] => []
      | m :: _ => .emitTrade now m ::
          Task.tradeEmitter.faultSteps t.board.config (t.board.emitTrade now m).1
  | .diffRouter =>
      match t.diffs with
      | [] => []
      | m :: _ => .routeDiff now m ::
          Task.diffRouter.faultSteps t.board.config (faultOf? (t.board.routeDiff now m).1)
  | .snapshotRouter =>
      match t.snapshots with
      | [] => []
      | m :: _ => .routeSnapshot m ::
          Task.snapshotRouter.faultSteps t.board.config (faultOf? (t.board.routeSnapshot m).1)
  | .refresher =>
      match t.turns.current? with
      | some { owner := .periodic, seen? := some seen } => t.finishSteps now seen
      | some { owner := .periodic, seen? := none } => t.beginSteps now
      | some { owner := .caller _, seen? := _ } => []
      | none => t.beginSteps now
  | .worker instrument serial =>
      match t.board.find? instrument with
      | none => []
      | some r =>
          if r.serial = serial ∧ r.inbox ≠ [] then
            .work now instrument :: (Task.worker instrument serial).faultSteps t.board.config
              (t.board.work now instrument).1
          else []

/-- **What a move does to the board.** -/
def stepsOf (t : Tracker) : Move → List Board.Step
  | .perform now task => if task ∈ t.ready then t.stepsOfTask now task else []
  | .start now =>
      match t.phase with
      | .idle => [.startTallies now, .record [.started]]
      | _ => []
  | .stop =>
      match t.phase with
      | .idle => [.killWorkers]
      | .running => [.killWorkers, .record [.stopped]]
      | _ => []
  | .drop => [.killWorkers]
  | .conclude now caller =>
      match t.turns.current? with
      | some { owner, seen? := some seen } =>
          if owner = .caller caller then t.concludeSteps now true seen else []
      | _ => []
  | .refreshDetached now =>
      if t.isServing ∧ t.turns.current? = none then
        t.concludeSteps now false t.board.trackedNames
      else []
  | .loseWorker instrument => [.loseWorker instrument]
  | .takeResyncs => if t.resyncTaken then [.takeResyncs] else []
  | .takeLog => [.takeLog]
  | .fire _ | .send _ | .ask _ | .begin _ | .leave _ | .changeDirectory _ | .takeResyncReader => []

/-- **The steps on the board that a list of moves takes.** -/
def trace (t : Tracker) : List Move → List Board.Step
  | [] => []
  | a :: as => t.stepsOf a ++ (t.move a).trace as

theorem trace_append (t : Tracker) (as as' : List Move) :
    t.trace (as ++ as') = t.trace as ++ (t.moves as).trace as' := by
  induction as generalizing t with
  | nil => rfl
  | cons a as ih =>
      rw [List.cons_append, trace, trace, ih, List.append_assoc]
      rfl

theorem trace_concat (t : Tracker) (as : List Move) (a : Move) :
    t.trace (as ++ [a]) = t.trace as ++ (t.moves as).stepsOf a := by
  rw [trace_append, trace, trace, List.append_nil]

/-- Each step of a trace is one of the steps of a move. -/
theorem exists_of_trace_eq {t : Tracker} {as : List Move} {before after : List Board.Step}
    {s : Board.Step} (h : t.trace as = before ++ s :: after) :
    ∃ earlier a later, as = earlier ++ a :: later ∧ ∃ first rest,
      (t.moves earlier).stepsOf a = first ++ s :: rest ∧ before = t.trace earlier ++ first ∧
      after = rest ++ ((t.moves earlier).move a).trace later := by
  induction as generalizing t before with
  | nil => exact absurd h.symm (List.append_ne_nil_of_right_ne_nil _ (List.cons_ne_nil _ _))
  | cons a as ih =>
      -- the step is one of the first move, or one of the others
      have hlater : ∀ rest, before = t.stepsOf a ++ rest → (t.move a).trace as = rest ++ s :: after →
          ∃ earlier a' later, a :: as = earlier ++ a' :: later ∧ ∃ first rest,
            (t.moves earlier).stepsOf a' = first ++ s :: rest ∧ before = t.trace earlier ++ first ∧
            after = rest ++ ((t.moves earlier).move a').trace later := by
        rintro rest rfl hrest
        obtain ⟨earlier, a', later, rfl, first, rest, hsteps, rfl, rfl⟩ := ih hrest
        exact ⟨a :: earlier, a', later, rfl, first, rest, hsteps, (List.append_assoc _ _ _).symm, rfl⟩
      rw [trace] at h
      rcases List.append_eq_append_iff.1 h with ⟨rest, hbefore, hrest⟩ | ⟨rest, hsteps, hrest⟩
      · exact hlater rest hbefore hrest
      · cases rest with
        | nil => exact hlater [] (by simpa using hsteps.symm) hrest.symm
        | cons s' rest =>
            obtain ⟨rfl, rfl⟩ := List.cons.inj hrest
            exact ⟨[], a, as, rfl, before, rest, hsteps, rfl, rfl⟩

/-! ### What is around the board -/

theorem wake_frame (t : Tracker) (task : Task) :
    ∃ ready, t.wake task = { t with ready } := by
  unfold wake
  split
  · exact ⟨t.ready, rfl⟩
  · exact ⟨_, rfl⟩

theorem wakeWorker_frame (t : Tracker) (instrument : String) :
    ∃ ready, t.wakeWorker instrument = { t with ready } := by
  unfold wakeWorker
  split
  · exact wake_frame t _
  · exact ⟨t.ready, rfl⟩

/-- What a task does after a message concerns the log, the ready line and the timers only. -/
theorem afterMessage_frame (t : Tracker) (now : Nat) (task : Task) (fault? : Option Fault) :
    ∃ ready timers, t.afterMessage now task fault? =
      { t with board := t.board.takeAll (task.faultSteps t.board.config fault?), ready, timers } := by
  cases fault? with
  | none => exact ⟨_, _, rfl⟩
  | some fault =>
      simp only [afterMessage, pause]
      split <;> exact ⟨_, _, rfl⟩

theorem afterRouting_frame (t : Tracker) (now : Nat) (task : Task) (instrument : String)
    (result : Except Fault Offer) :
    ∃ ready timers, t.afterRouting now task instrument result =
      { t with
        board := t.board.takeAll (task.faultSteps t.board.config (faultOf? result))
        ready, timers } := by
  cases result with
  | error fault => exact afterMessage_frame t now task (some fault)
  | ok offer =>
      obtain ⟨ready, hwake⟩ := wakeWorker_frame t instrument
      cases offer with
      | queued =>
          simp only [afterRouting, hwake]
          exact ⟨_, _, rfl⟩
      | _ => exact ⟨_, _, rfl⟩

theorem passTurn_frame (t : Tracker) :
    ∃ ready, t.passTurn = { t with turns := t.turns.pass, ready } := by
  simp only [passTurn]
  split
  · exact wake_frame { t with turns := t.turns.pass } .refresher
  · exact ⟨_, rfl⟩

/-- The end of a cycle passes the turn on, and uses up one look-up. -/
theorem concludeCycle_frame (t : Tracker) (now : Nat) (seen : List String) :
    ∃ ready, (t.concludeCycle now seen).2 =
      { t with
        directory := t.directory.lookup.2
        board := t.board.takeAll (t.concludeSteps now true seen)
        turns := t.turns.pass
        ready } := by
  unfold concludeCycle concludeSteps
  cases hlookup : t.directory.lookup with
  | mk result directory =>
      cases result with
      | error fault => exact passTurn_frame { t with directory }
      | ok found => exact passTurn_frame _

theorem finishPeriodic_frame (t : Tracker) (now : Nat) (seen : List String) :
    ∃ ready timers, t.finishPeriodic now seen =
      { t with
        directory := t.directory.lookup.2
        board := t.board.takeAll (t.finishSteps now seen)
        turns := t.turns.pass
        ready, timers } := by
  obtain ⟨ready, hconclude⟩ := concludeCycle_frame t now seen
  unfold finishPeriodic finishSteps
  rcases Directory.lookup_cases t.directory with hlookup | ⟨fault, after, hlookup, -⟩
  · -- after a success the refresher sleeps until its next cycle
    have hresult : ∃ outcome, (t.concludeCycle now seen).1 = .ok outcome := by
      simp [concludeCycle, hlookup]
    obtain ⟨outcome, hresult⟩ := hresult
    rw [← Prod.mk.eta (p := t.concludeCycle now seen), hresult, hconclude]
    simp only [concludeSteps, hlookup]
    exact ⟨_, _, rfl⟩
  · -- after a failure it logs the fault and pauses, like any task
    have hresult : (t.concludeCycle now seen).1 = .error fault := by
      simp [concludeCycle, hlookup]
    rw [← Prod.mk.eta (p := t.concludeCycle now seen), hresult, hconclude]
    simp only [concludeSteps, hlookup]
    exact afterMessage_frame _ now .refresher (some fault)

theorem beginPeriodic_frame (t : Tracker) (now : Nat) :
    ∃ ready timers, t.beginPeriodic now =
      { t with
        ready, timers
        directory := if t.directory.delay = 0 then t.directory.lookup.2 else t.directory
        turns :=
          if t.directory.delay = 0 then (t.turns.begin t.board.trackedNames).pass
          else t.turns.begin t.board.trackedNames
        board := t.board.takeAll (t.beginSteps now) } := by
  simp only [beginPeriodic, beginSteps]
  split
  · obtain ⟨ready, timers, hfinish⟩ := finishPeriodic_frame
      { t with turns := t.turns.begin t.board.trackedNames } now t.board.trackedNames
    exact ⟨ready, timers, hfinish⟩
  · exact ⟨_, _, rfl⟩

/-- **What a task does to the board,** and which message it takes from which stream.  Only the
refresher is concerned with directory and turns. -/
theorem perform_frame_of_ne_refresher (t : Tracker) (now : Nat) {task : Task}
    (h : task ≠ .refresher) :
    ∃ ready timers, t.perform now task =
      { t with
        ready, timers
        board := t.board.takeAll (t.stepsOfTask now task)
        trades := if task = .tradeEmitter then t.trades.tail else t.trades
        diffs := if task = .diffRouter then t.diffs.tail else t.diffs
        snapshots := if task = .snapshotRouter then t.snapshots.tail else t.snapshots } := by
  cases task with
  | tradeEmitter =>
      simp only [perform, stepsOfTask, if_true, reduceCtorEq, if_false]
      cases htrades : t.trades with
      | nil =>
          cases t
          cases htrades
          exact ⟨_, _, rfl⟩
      | cons m trades =>
          -- the pause after a fault is that of the settings, which no step changes
          have hconfig : (t.board.emitTrade now m).2.config = t.board.config :=
            Board.config_take t.board (.emitTrade now m)
          obtain ⟨ready, timers, hafter⟩ := afterMessage_frame
            { t with trades, board := (t.board.emitTrade now m).2 } now .tradeEmitter
            (t.board.emitTrade now m).1
          rw [hconfig] at hafter
          exact ⟨ready, timers, hafter⟩
  | diffRouter =>
      simp only [perform, stepsOfTask, if_true, reduceCtorEq, if_false]
      cases hdiffs : t.diffs with
      | nil =>
          cases t
          cases hdiffs
          exact ⟨_, _, rfl⟩
      | cons m diffs =>
          have hconfig : (t.board.routeDiff now m).2.config = t.board.config :=
            Board.config_take t.board (.routeDiff now m)
          obtain ⟨ready, timers, hafter⟩ := afterRouting_frame
            { t with diffs, board := (t.board.routeDiff now m).2 } now .diffRouter m.instrument
            (t.board.routeDiff now m).1
          rw [hconfig] at hafter
          exact ⟨ready, timers, hafter⟩
  | snapshotRouter =>
      simp only [perform, stepsOfTask, if_true, reduceCtorEq, if_false]
      cases hsnapshots : t.snapshots with
      | nil =>
          cases t
          cases hsnapshots
          exact ⟨_, _, rfl⟩
      | cons m snapshots =>
          have hconfig : (t.board.routeSnapshot m).2.config = t.board.config :=
            Board.config_take t.board (.routeSnapshot m)
          obtain ⟨ready, timers, hafter⟩ := afterRouting_frame
            { t with snapshots, board := (t.board.routeSnapshot m).2 } now .snapshotRouter
            m.instrument (t.board.routeSnapshot m).1
          rw [hconfig] at hafter
          exact ⟨ready, timers, hafter⟩
  | refresher => exact absurd rfl h
  | worker instrument serial =>
      simp only [perform, stepsOfTask, reduceCtorEq, if_false]
      cases hr : t.board.find? instrument with
      | none => exact ⟨t.ready, t.timers, rfl⟩
      | some r =>
          dsimp only
          split
          case isFalse => exact ⟨t.ready, t.timers, rfl⟩
          case isTrue =>
            have hconfig : (t.board.work now instrument).2.config = t.board.config :=
              Board.config_take t.board (.work now instrument)
            obtain ⟨ready, timers, hafter⟩ := afterMessage_frame
              { t with board := (t.board.work now instrument).2 } now (.worker instrument serial)
              (t.board.work now instrument).1
            rw [hconfig] at hafter
            exact ⟨ready, timers, hafter⟩

theorem refreshStep_frame (t : Tracker) (now : Nat) :
    ∃ directory turns ready timers, t.refreshStep now =
      { t with
        directory, turns, ready, timers
        board := t.board.takeAll (t.stepsOfTask now .refresher) } := by
  simp only [refreshStep, stepsOfTask]
  rcases t.turns.current? with _ | ⟨_ | caller, _ | seen⟩
  · obtain ⟨ready, timers, hbegin⟩ :=
      beginPeriodic_frame { t with turns := t.turns.ask .periodic } now
    exact ⟨_, _, ready, timers, hbegin⟩
  · obtain ⟨ready, timers, hbegin⟩ := beginPeriodic_frame t now
    exact ⟨_, _, ready, timers, hbegin⟩
  · obtain ⟨ready, timers, hfinish⟩ := finishPeriodic_frame t now seen
    exact ⟨_, _, ready, timers, hfinish⟩
  · exact ⟨_, _, _, _, rfl⟩
  · exact ⟨_, _, _, _, rfl⟩

theorem perform_frame (t : Tracker) (now : Nat) (task : Task) :
    ∃ directory turns ready timers, t.perform now task =
      { t with
        directory, turns, ready, timers
        board := t.board.takeAll (t.stepsOfTask now task)
        trades := if task = .tradeEmitter then t.trades.tail else t.trades
        diffs := if task = .diffRouter then t.diffs.tail else t.diffs
        snapshots := if task = .snapshotRouter then t.snapshots.tail else t.snapshots } := by
  by_cases h : task = .refresher
  · subst h
    exact refreshStep_frame t now
  · obtain ⟨ready, timers, hperform⟩ := perform_frame_of_ne_refresher t now h
    exact ⟨_, _, ready, timers, hperform⟩

/-! ### Turns -/

theorem turns_finishPeriodic (t : Tracker) (now : Nat) (seen : List String) :
    (t.finishPeriodic now seen).turns = t.turns.pass := by
  obtain ⟨_, _, hfinish⟩ := finishPeriodic_frame t now seen
  rw [hfinish]

theorem turns_beginPeriodic (t : Tracker) (now : Nat) :
    (t.beginPeriodic now).turns =
      if t.directory.delay = 0 then (t.turns.begin t.board.trackedNames).pass
      else t.turns.begin t.board.trackedNames := by
  obtain ⟨_, _, hbegin⟩ := beginPeriodic_frame t now
  rw [hbegin]

theorem turns_perform_of_ne_refresher (t : Tracker) (now : Nat) {task : Task}
    (h : task ≠ .refresher) : (t.perform now task).turns = t.turns := by
  obtain ⟨_, _, hframe⟩ := perform_frame_of_ne_refresher t now h
  rw [hframe]

theorem turns_leaveTurn (t : Tracker) (who : Requester) :
    (t.leaveTurn who).turns = t.turns.leave who := by
  unfold leaveTurn Turns.leave
  split
  · obtain ⟨_, hframe⟩ := passTurn_frame t
    rw [hframe]
  · rfl

/-! ### The board after moves -/

theorem board_leaveTurn (t : Tracker) (who : Requester) : (t.leaveTurn who).board = t.board := by
  unfold leaveTurn
  split
  · obtain ⟨ready, hpass⟩ := passTurn_frame t
    rw [hpass]
  · rfl

theorem push_frame (t : Tracker) (target : Kind) (m : Message) :
    ∃ ready, t.push target m =
      { t with
        diffs := if target = .diff then t.diffs ++ [m] else t.diffs
        snapshots := if target = .snapshot then t.snapshots ++ [m] else t.snapshots
        trades := if target = .trade then t.trades ++ [m] else t.trades
        ready } := by
  cases target with
  | diff =>
      simp only [push]
      split
      · exact wake_frame { t with diffs := t.diffs ++ [m] } .diffRouter
      · exact ⟨_, rfl⟩
  | snapshot =>
      simp only [push]
      split
      · exact wake_frame { t with snapshots := t.snapshots ++ [m] } .snapshotRouter
      · exact ⟨_, rfl⟩
  | trade =>
      simp only [push]
      split
      · exact wake_frame { t with trades := t.trades ++ [m] } .tradeEmitter
      · exact ⟨_, rfl⟩

/-- Sending concerns the streams and the ready line only. -/
theorem send_frame (t : Tracker) (messages : List (Kind × Message)) :
    ∃ diffs snapshots trades ready, (t.send messages).2 =
      { t with diffs, snapshots, trades, ready } := by
  have hfold : ∀ ms : List (Kind × Message), ∀ t : Tracker,
      ∃ diffs snapshots trades ready, ms.foldl (fun t m => t.push m.1 m.2) t =
        { t with diffs, snapshots, trades, ready } := by
    intro ms
    induction ms with
    | nil => exact fun t => ⟨_, _, _, _, rfl⟩
    | cons m ms ih =>
        intro t
        obtain ⟨ready, hpush⟩ := push_frame t m.1 m.2
        obtain ⟨diffs, snapshots, trades, ready', hrest⟩ := ih (t.push m.1 m.2)
        refine ⟨diffs, snapshots, trades, ready', ?_⟩
        rw [List.foldl_cons, hrest, hpush]
  unfold send
  split
  · exact hfold messages t
  · exact ⟨_, _, _, _, rfl⟩

theorem board_refreshDetached (t : Tracker) (now : Nat) (h : t.isServing = true) :
    (t.refreshDetached now).2.board =
      t.board.takeAll (t.concludeSteps now false t.board.trackedNames) := by
  unfold refreshDetached concludeSteps
  rw [if_neg (by simp [isStopped_of_isServing h])]
  cases hlookup : t.directory.lookup with
  | mk result directory => cases result <;> rfl

/-- **What a move does to the board is its steps.** -/
theorem board_move (t : Tracker) (a : Move) : (t.move a).board = t.board.takeAll (t.stepsOf a) := by
  cases a with
  | perform now task =>
      simp only [move, stepsOf]
      split
      · obtain ⟨_, _, _, _, hperform⟩ :=
          perform_frame { t with ready := t.ready.erase task } now task
        rw [hperform]
        rfl
      · rfl
  | start now =>
      simp only [move, start, stepsOf]
      cases t.phase <;> rfl
  | stop =>
      simp only [move, stop, stepsOf]
      cases t.phase <;> rfl
  | send messages =>
      obtain ⟨_, _, _, _, hsend⟩ := send_frame t messages
      simp only [move, stepsOf, hsend]
      rfl
  | ask caller =>
      simp only [move, stepsOf]
      split <;> rfl
  | begin caller =>
      simp only [move, stepsOf]
      split
      · split <;> rfl
      · rfl
  | conclude now caller =>
      simp only [move, stepsOf]
      rcases t.turns.current? with _ | ⟨owner, _ | seen⟩
      · rfl
      · rfl
      · dsimp only
        split
        · obtain ⟨ready, hconclude⟩ := concludeCycle_frame t now seen
          rw [hconclude]
        · rfl
  | leave caller => exact board_leaveTurn t (.caller caller)
  | refreshDetached now =>
      simp only [move, stepsOf]
      split
      case isTrue h => exact board_refreshDetached t now h.1
      case isFalse => rfl
  | takeResyncs =>
      simp only [move, takeResyncs, stepsOf]
      split <;> rfl
  | fire now => rfl
  | drop => rfl
  | loseWorker instrument => rfl
  | changeDirectory directory => rfl
  | takeResyncReader => rfl
  | takeLog => rfl

/-- **The board after a list of moves is the board after its trace.** -/
theorem board_moves (t : Tracker) (as : List Move) :
    (t.moves as).board = t.board.takeAll (t.trace as) := by
  induction as generalizing t with
  | nil => rfl
  | cons a as ih => rw [trace, Board.takeAll_append, ← board_move]; exact ih (t.move a)

/-- A new tracker has valid settings and a board on which nothing is registered. -/
theorem new_eq_ok_iff {config : Config} {directory : Directory} {t : Tracker} :
    new config directory = .ok t ↔
      config.validate = .ok () ∧ t = { board := .start config, directory } := by
  unfold new
  cases hvalid : config.validate with
  | error fault => exact ⟨nofun, nofun⟩
  | ok => exact ⟨fun h => ⟨rfl, (Except.ok.inj h).symm⟩, fun h => congrArg Except.ok h.2.symm⟩

theorem eq_of_new {config : Config} {directory : Directory} {t : Tracker}
    (h : new config directory = .ok t) : t = { board := .start config, directory } :=
  (new_eq_ok_iff.1 h).2

theorem validate_of_new {config : Config} {directory : Directory} {t : Tracker}
    (h : new config directory = .ok t) : config.validate = .ok () :=
  (new_eq_ok_iff.1 h).1

/-- The board of a tracker that was new once. -/
theorem board_moves_of_new {config : Config} {directory : Directory} {t : Tracker}
    (h : new config directory = .ok t) (as : List Move) :
    (t.moves as).board = (Board.start config).takeAll (t.trace as) := by
  have hboard : t.board = .start config := congrArg (·.board) (eq_of_new h)
  rw [board_moves, hboard]

/-- The settings stay those that it was made with. -/
theorem config_moves_of_new {config : Config} {directory : Directory} {t : Tracker}
    (h : new config directory = .ok t) (as : List Move) : (t.moves as).board.config = config := by
  rw [board_moves_of_new h, Board.config_takeAll]
  rfl

/-- **What became of the messages for a registration** along a list of moves. -/
def fates (t : Tracker) (instrument : String) (serial : Nat) (as : List Move) : List Fate :=
  t.board.fates instrument serial (t.trace as)

end Tracker

end MarketDepth
