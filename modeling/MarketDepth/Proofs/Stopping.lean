/-
**The end of a tracker.**

A tracker is stopped once and for all.  Whatever its tasks were doing, none of them is ready, asleep
or in a refresh cycle any more, and all workers have ended; so nothing that comes later, messages and
passing time included, reaches a book, a queue or a counter.  From then on it refuses to start and to
refresh; and before that it starts once.

Main definitions:

* `MarketDepth.Board.Dead` — all workers have ended, and nothing waits for them;
* `MarketDepth.Tracker.AtRest` — **the tracker will not run again**;
* `MarketDepth.Board.Keeps` — all that is on a board stays, but for requests and events that are
  read.

Main results:

* `MarketDepth.Tracker.AtRest.move`, `MarketDepth.Tracker.AtRest.moves` — a tracker at rest stays so,
  and its board with it;
* `MarketDepth.Tracker.atRest_moves` — a tracker that is not serving is at rest;
* `MarketDepth.Tracker.stop_is_final` — **after a stop nothing changes, and a tracker starts once.**
-/

import MarketDepth.Proofs.Convergence
import MarketDepth.Proofs.Local
import MarketDepth.Proofs.Moves

set_option relaxedAutoImplicit false
set_option autoImplicit false

namespace MarketDepth

/-! ### Boards without workers -/

theorem Registration.kill_eq_self {r : Registration} (dead : r.live = false)
    (empty : r.inbox = []) : r.kill = r := by
  cases r
  cases dead
  cases empty
  rfl

namespace Board

/-- All workers have ended, and nothing waits for them. -/
def Dead (b : Board) : Prop :=
  ∀ name r, b.find? name = some r → r.live = false ∧ r.inbox = []

theorem dead_killWorkers (b : Board) : b.killWorkers.Dead := by
  intro name r hr
  rw [find?_killWorkers] at hr
  obtain ⟨r₀, -, rfl⟩ := Option.map_eq_some_iff.1 hr
  exact ⟨rfl, rfl⟩

namespace Dead

variable {b : Board} (h : b.Dead)

include h

theorem trackedNames_eq_nil : b.trackedNames = [] := by
  refine List.eq_nil_iff_forall_not_mem.2 fun name hname => ?_
  obtain ⟨r, hr, hlive⟩ := mem_trackedNames_iff.1 hname
  rw [(h name r hr).1] at hlive
  cases hlive

/-- Workers do not end twice. -/
theorem killWorkers_eq_self : b.killWorkers = b := by
  have hregistry : b.registry.map (·.kill) = b.registry :=
    NameTable.map_eq_self fun name r hr =>
      Registration.kill_eq_self (h name r hr).1 (h name r hr).2
  rw [killWorkers, hregistry]

theorem loseWorker_eq_self (name : String) : b.loseWorker name = b := by
  have hregistry : b.registry.adjust name (·.kill) = b.registry :=
    NameTable.adjust_eq_self fun r hr =>
      Registration.kill_eq_self (h name r hr).1 (h name r hr).2
  rw [loseWorker, hregistry]

end Dead

/-- **All that is on the board stays,** registrations, books of the past and counters, but for
requests and events that are read. -/
def Keeps (b b' : Board) : Prop :=
  ∃ resyncs log, b' = { b with resyncs, log }

theorem Keeps.refl (b : Board) : b.Keeps b :=
  ⟨b.resyncs, b.log, rfl⟩

theorem Keeps.trans {b b' b'' : Board} (h : b.Keeps b') (h' : b'.Keeps b'') : b.Keeps b'' := by
  obtain ⟨_, _, rfl⟩ := h
  obtain ⟨_, _, rfl⟩ := h'
  exact ⟨_, _, rfl⟩

theorem Dead.keeps {b b' : Board} (h : b.Dead) (hkeeps : b.Keeps b') : b'.Dead := by
  obtain ⟨_, _, rfl⟩ := hkeeps
  exact h

end Board

namespace Tracker

/-! ### Trackers at rest -/

/-- **The tracker will not run again:** no task is ready, asleep or in a cycle, and all workers have
ended. -/
structure AtRest (t : Tracker) : Prop where
  refused : t.isServing = false
  ready : t.ready = []
  timers : t.timers = []
  turns : t.turns = .free
  dead : t.board.Dead

theorem atRest_stop {t : Tracker} (h : t.isServing = true) : t.stop.AtRest := by
  unfold stop
  unfold isServing at h
  cases hphase : t.phase with
  | idle => exact ⟨rfl, rfl, rfl, rfl, Board.dead_killWorkers t.board⟩
  | running => exact ⟨rfl, rfl, rfl, rfl, Board.dead_killWorkers t.board⟩
  | _ => simp [hphase] at h

theorem atRest_drop (t : Tracker) : t.drop.AtRest :=
  ⟨rfl, rfl, rfl, rfl, Board.dead_killWorkers t.board⟩

/-- A message that is sent while no task runs only waits in its stream. -/
theorem push_of_not_running {t : Tracker} (h : t.phase ≠ .running) (target : Kind) (m : Message) :
    ∃ diffs snapshots trades, t.push target m = { t with diffs, snapshots, trades } := by
  cases target with
  | _ =>
      simp only [push, if_neg h]
      exact ⟨_, _, _, rfl⟩

theorem send_of_not_running {t : Tracker} (h : t.phase ≠ .running)
    (messages : List (Kind × Message)) :
    ∃ diffs snapshots trades, (t.send messages).2 = { t with diffs, snapshots, trades } := by
  have hfold : ∀ ms : List (Kind × Message), ∃ diffs snapshots trades,
      ms.foldl (fun t m => t.push m.1 m.2) t = { t with diffs, snapshots, trades } := by
    intro ms
    induction ms using List.reverseRecOn with
    | nil => exact ⟨_, _, _, rfl⟩
    | append_singleton ms m ih =>
        obtain ⟨diffs, snapshots, trades, hms⟩ := ih
        obtain ⟨_, _, _, hpush⟩ :=
          push_of_not_running (t := { t with diffs, snapshots, trades }) h m.1 m.2
        rw [List.foldl_append, hms]
        exact ⟨_, _, _, hpush⟩
  unfold send
  split
  · exact hfold messages
  · exact ⟨_, _, _, rfl⟩

namespace AtRest

variable {t : Tracker} (h : t.AtRest)

include h

theorem phase_ne_running : t.phase ≠ .running := by
  intro hphase
  have hrefused := h.refused
  simp [isServing, hphase] at hrefused

theorem start_eq (now : Nat) : t.start now = .error .stopped := by
  have hrefused := h.refused
  unfold isServing at hrefused
  unfold start
  split <;> simp_all

theorem stop_eq_self : t.stop = t := by
  have hrefused := h.refused
  unfold isServing at hrefused
  unfold stop
  split <;> simp_all

theorem fire_eq_self (now : Nat) : t.fire now = t := by
  have hready := h.ready
  have htimers := h.timers
  cases t
  simp_all [fire]

/-- Time passes for nobody. -/
theorem advance_eq_self (now span : Nat) : t.advance now span = t := by
  have hdue : t.nextDue? = none := by simp [nextDue?, h.timers]
  have hstep : ∀ now, t.step? now = none := fun now => by simp [step?, h.ready]
  rw [advance, reach, hdue]
  dsimp only
  rw [h.fire_eq_self, runDry, hstep]

/-- **What a move can still do:** messages may wait in a stream that is open, the directory may
change, and requests and events may be read. -/
theorem move_frame (a : Move) :
    ∃ directory diffs snapshots trades phase resyncTaken resyncs log, t.move a =
      { t with
        directory, diffs, snapshots, trades, phase, resyncTaken
        board := { t.board with resyncs, log } } ∧ (t.move a).isServing = false := by
  have hself : t.move a = t → ∃ directory diffs snapshots trades phase resyncTaken resyncs log,
      t.move a =
        { t with
          directory, diffs, snapshots, trades, phase, resyncTaken
          board := { t.board with resyncs, log } } ∧ (t.move a).isServing = false := by
    intro hmove
    rw [hmove]
    exact ⟨_, _, _, _, _, _, _, _, rfl, h.refused⟩
  cases a with
  | perform now task => exact hself (by simp [move, h.ready])
  | fire now => exact hself (h.fire_eq_self now)
  | start now => exact hself (by simp [move, h.start_eq])
  | stop => exact hself h.stop_eq_self
  | drop =>
      have hboard := h.dead.killWorkers_eq_self
      have hready := h.ready
      have htimers := h.timers
      have hturns := h.turns
      refine ⟨t.directory, [], [], [], .dropped, t.resyncTaken, t.board.resyncs, t.board.log, ?_, rfl⟩
      simp only [move, drop, endTasks, clearStreams, hboard, hready, htimers, hturns]
  | send messages =>
      obtain ⟨_, _, _, hsend⟩ := send_of_not_running h.phase_ne_running messages
      simp only [move, hsend]
      exact ⟨_, _, _, _, _, _, _, _, rfl, h.refused⟩
  | ask caller => exact hself (by simp [move, h.refused])
  | begin caller => exact hself (by simp [move, h.turns, Turns.free])
  | conclude now caller => exact hself (by simp [move, h.turns, Turns.free])
  | leave caller =>
      refine hself ?_
      have hturns := h.turns
      cases t
      simp_all [move, leaveTurn, Turns.isHeldBy, Turns.leave, Turns.free]
  | refreshDetached now => exact hself (by simp [move, h.refused])
  | loseWorker instrument =>
      refine hself ?_
      rw [move, h.dead.loseWorker_eq_self]
  | changeDirectory directory => exact ⟨_, _, _, _, _, _, _, _, rfl, h.refused⟩
  | takeResyncReader => exact ⟨_, _, _, _, _, _, _, _, rfl, h.refused⟩
  | takeResyncs =>
      by_cases htaken : t.resyncTaken = true
      · simp only [move, takeResyncs, if_pos htaken]
        exact ⟨_, _, _, _, _, _, _, _, rfl, h.refused⟩
      · exact hself (by simp [move, takeResyncs, htaken])
  | takeLog => exact ⟨_, _, _, _, _, _, _, _, rfl, h.refused⟩

/-- **A tracker at rest stays so, and its board with it.** -/
theorem move (a : Move) : (t.move a).AtRest ∧ t.board.Keeps (t.move a).board := by
  obtain ⟨_, _, _, _, _, _, resyncs, log, hmove, hrefused⟩ := h.move_frame a
  have hkeeps : t.board.Keeps (t.move a).board := by
    rw [hmove]
    exact ⟨resyncs, log, rfl⟩
  refine ⟨⟨hrefused, ?_, ?_, ?_, h.dead.keeps hkeeps⟩, hkeeps⟩
  · rw [hmove]
    exact h.ready
  · rw [hmove]
    exact h.timers
  · rw [hmove]
    exact h.turns

/-- What is left to do on the board publishes nothing. -/
theorem published_eq_nil {a : Move} {s : Board.Step} (hs : s ∈ t.stepsOf a) (b : Board) :
    b.published s = [] := by
  have hrefused := h.refused
  unfold isServing at hrefused
  cases a with
  | perform now task => simp [stepsOf, h.ready] at hs
  | start now =>
      simp only [stepsOf] at hs
      split at hs <;> simp_all
  | stop =>
      simp only [stepsOf] at hs
      split at hs <;> simp_all
  | conclude now caller => simp [stepsOf, h.turns, Turns.free] at hs
  | refreshDetached now => simp [stepsOf, h.refused] at hs
  | takeResyncs =>
      simp only [stepsOf] at hs
      split at hs
      · rw [List.mem_singleton.1 hs]
        rfl
      · cases hs
  | drop =>
      rw [List.mem_singleton.1 hs]
      rfl
  | loseWorker instrument =>
      rw [List.mem_singleton.1 hs]
      rfl
  | takeLog =>
      rw [List.mem_singleton.1 hs]
      rfl
  | _ => cases hs

theorem moves (as : List Move) : (t.moves as).AtRest ∧ t.board.Keeps (t.moves as).board := by
  induction as generalizing t with
  | nil => exact ⟨h, .refl _⟩
  | cons a as ih =>
      obtain ⟨hrest, hkeeps⟩ := h.move a
      obtain ⟨hrest', hkeeps'⟩ := ih hrest
      exact ⟨hrest', hkeeps.trans hkeeps'⟩

/-- Nothing is published by a tracker at rest. -/
theorem published_trace_eq_nil {as : List Move} {s : Board.Step} (hs : s ∈ t.trace as)
    (b : Board) : b.published s = [] := by
  induction as generalizing t with
  | nil => cases hs
  | cons a as ih =>
      rcases List.mem_append.1 hs with hs | hs
      · exact h.published_eq_nil hs b
      · exact ih (h.move a).1 hs

/-- A tracker at rest refuses every cycle, if it is still there. -/
theorem refresh_eq (there : t.phase ≠ .dropped) (now limit : Nat) :
    t.refresh now = (now, .failed .stopped, t) ∧
    t.refreshWithin now limit = (now, .failed .stopped, t) ∧
    t.refreshBoth now = (now, .failed .stopped, .failed .stopped, t) ∧
    t.refreshDetached now = (.failed .stopped, t) := by
  have hstopped : t.isStopped = true := by
    have hrefused := h.refused
    unfold isServing at hrefused
    unfold isStopped
    cases hphase : t.phase with
    | stopped ran => rfl
    | dropped => exact absurd hphase there
    | _ => simp [hphase] at hrefused
  refine ⟨?_, ?_, ?_, ?_⟩
  · rw [refresh, if_pos hstopped]
  · rw [refreshWithin, if_pos hstopped]
  · rw [refreshBoth, if_pos hstopped]
  · rw [refreshDetached, if_pos hstopped]

end AtRest

/-! ### The life of a tracker -/

end Tracker

/-- The phase after a move: only starting, stopping and letting go change it. -/
def Phase.after (phase : Phase) : Tracker.Move → Phase
  | .start _ => if phase = .idle then .running else phase
  | .stop =>
      match phase with
      | .idle => .stopped false
      | .running => .stopped true
      | phase => phase
  | .drop => .dropped
  | _ => phase

namespace Tracker

theorem phase_move (t : Tracker) (a : Move) : (t.move a).phase = t.phase.after a := by
  cases a with
  | perform now task =>
      simp only [move, Phase.after]
      split
      · obtain ⟨_, _, _, _, hperform⟩ :=
          perform_frame { t with ready := t.ready.erase task } now task
        rw [hperform]
      · rfl
  | start now =>
      simp only [move, start, Phase.after]
      cases hphase : t.phase <;> simp [hphase]
  | stop =>
      simp only [move, stop, Phase.after]
      cases hphase : t.phase <;> simp [hphase, record]
  | send messages =>
      obtain ⟨_, _, _, _, hsend⟩ := send_frame t messages
      simp only [move, hsend, Phase.after]
  | ask caller =>
      simp only [move, Phase.after]
      split <;> rfl
  | begin caller =>
      simp only [move, Phase.after]
      split
      · split <;> rfl
      · rfl
  | conclude now caller =>
      simp only [move, Phase.after]
      split
      next owner seen _ =>
        split
        · obtain ⟨_, hconclude⟩ := concludeCycle_frame t now seen
          rw [hconclude]
        · rfl
      next => rfl
  | leave caller =>
      simp only [move, leaveTurn, Phase.after]
      split
      · obtain ⟨_, hpass⟩ := passTurn_frame t
        rw [hpass]
      · rfl
  | refreshDetached now =>
      simp only [move, refreshDetached, Phase.after]
      split
      · split
        · rfl
        · split <;> rfl
      · rfl
  | takeResyncs =>
      simp only [move, takeResyncs, Phase.after]
      split <;> rfl
  | _ => rfl

/-- **The phase of a tracker tells what has been done to it.** -/
theorem phase_moves {config : Config} {directory : Directory} {t : Tracker}
    (h : new config directory = .ok t) (as : List Move) :
    (((∃ ran, (t.moves as).phase = .stopped ran) ∨ (t.moves as).phase = .dropped) ∧
      (.stop ∈ as ∨ .drop ∈ as)) ∨
    (.stop ∉ as ∧ .drop ∉ as) ∧
      ((t.moves as).phase = .running ∧ (∃ now, .start now ∈ as) ∨
        (t.moves as).phase = .idle ∧ ∀ now, .start now ∉ as) := by
  induction as using List.reverseRecOn with
  | nil =>
      rw [moves_nil, eq_of_new h]
      exact .inr ⟨⟨List.not_mem_nil, List.not_mem_nil⟩, .inr ⟨rfl, fun _ => List.not_mem_nil⟩⟩
  | append_singleton as a ih =>
      rw [moves_concat, phase_move]
      rcases ih with ⟨hphase, hmem⟩ | ⟨hmem, ⟨hphase, now, hstart⟩ | ⟨hphase, hnone⟩⟩
      · refine .inl ⟨?_, hmem.imp (List.mem_append_left _) (List.mem_append_left _)⟩
        rcases hphase with ⟨ran, hphase⟩ | hphase
        · rw [hphase]
          cases a <;> simp [Phase.after]
        · rw [hphase]
          cases a <;> simp [Phase.after]
      · rw [hphase]
        cases a with
        | stop => exact .inl ⟨.inl ⟨true, rfl⟩, .inl (by simp)⟩
        | drop => exact .inl ⟨.inr rfl, .inr (by simp)⟩
        | _ =>
            refine .inr ⟨by simpa using hmem, .inl ⟨by simp [Phase.after], now, ?_⟩⟩
            exact List.mem_append_left _ hstart
      · rw [hphase]
        cases a with
        | start now => exact .inr ⟨by simpa using hmem, .inl ⟨rfl, now, by simp⟩⟩
        | stop => exact .inl ⟨.inl ⟨false, rfl⟩, .inl (by simp)⟩
        | drop => exact .inl ⟨.inr rfl, .inr (by simp)⟩
        | _ => exact .inr ⟨by simpa using hmem, .inr ⟨rfl, by simpa using hnone⟩⟩

/-- **A tracker that was stopped is at rest,** and so is one that was let go. -/
theorem atRest_moves {config : Config} {directory : Directory} {t : Tracker}
    (h : new config directory = .ok t) (as : List Move)
    (refused : (t.moves as).isServing = false) : (t.moves as).AtRest := by
  induction as using List.reverseRecOn with
  | nil =>
      rw [moves_nil, eq_of_new h] at refused
      cases refused
  | append_singleton as a ih =>
      rw [moves_concat] at refused ⊢
      cases hserving : (t.moves as).isServing with
      | false => exact ((ih hserving).move a).1
      | true =>
          cases a with
          | stop => exact atRest_stop hserving
          | drop => exact atRest_drop _
          | _ =>
              -- no other move ends the service
              unfold isServing at refused hserving
              rw [phase_move] at refused
              cases hphase : (t.moves as).phase <;> simp_all [Phase.after]

/-- **What a start answers** depends on whether the tracker was started, stopped or let go. -/
theorem start_moves {config : Config} {directory : Directory} {t : Tracker}
    (h : new config directory = .ok t) (as : List Move) (now : Nat) :
    (.stop ∈ as ∨ .drop ∈ as → (t.moves as).start now = .error .stopped) ∧
    (.stop ∉ as ∧ .drop ∉ as → (∃ earlier, .start earlier ∈ as) →
      (t.moves as).start now = .error .alreadyStarted) ∧
    (.stop ∉ as ∧ .drop ∉ as → (∀ earlier, .start earlier ∉ as) →
      ∃ started, (t.moves as).start now = .ok started) := by
  rcases phase_moves h as with ⟨hphase, hended⟩ | ⟨hmem, ⟨hphase, earlier, hstart⟩ | ⟨hphase, hnone⟩⟩
  · have hstopped : (t.moves as).start now = .error .stopped := by
      rcases hphase with ⟨ran, hphase⟩ | hphase <;> simp only [start, hphase]
    have hnot : ¬(.stop ∉ as ∧ .drop ∉ as) := by rwa [not_and_or, not_not, not_not]
    exact ⟨fun _ => hstopped, fun hmem => absurd hmem hnot, fun hmem => absurd hmem hnot⟩
  · have hrunning : (t.moves as).start now = .error .alreadyStarted := by simp only [start, hphase]
    exact ⟨fun hended => absurd hended (not_or.2 hmem), fun _ _ => hrunning,
      fun _ hnone => absurd hstart (hnone earlier)⟩
  · have hidle : ∃ started, (t.moves as).start now = .ok started := by simp [start, hphase]
    exact ⟨fun hended => absurd hended (not_or.2 hmem),
      fun _ hstarted => hstarted.elim fun earlier hstart => absurd hstart (hnone earlier),
      fun _ _ => hidle⟩

/-- **A stop is final.**  However far a tracker has come, its tasks in the middle of whatever they do:
once it is stopped, no worker is live, and nothing that happens later changes anything on its board
but for requests and events that are read.  No request is published, no time passes for it, and it
refuses to start and to refresh.  And a tracker starts once: only the first start can succeed, and
none after a stop. -/
theorem stop_is_final {config : Config} {directory : Directory} {t : Tracker}
    (h : new config directory = .ok t) :
    (∀ as later : List Move,
      let stopped := (t.moves as).stop
      let u := stopped.moves later
      (u.board.trackedNames = [] ∧ ∀ name r, u.board.find? name = some r → r.live = false) ∧
      stopped.board.Keeps u.board ∧
      (∀ s ∈ stopped.trace later, ∀ b : Board, b.published s = []) ∧
      (∀ now span, u.advance now span = u) ∧
      (∀ now, u.start now = .error .stopped) ∧
      (u.phase ≠ .dropped → ∀ now limit,
        u.refresh now = (now, .failed .stopped, u) ∧
        u.refreshWithin now limit = (now, .failed .stopped, u) ∧
        u.refreshBoth now = (now, .failed .stopped, .failed .stopped, u) ∧
        u.refreshDetached now = (.failed .stopped, u))) ∧
    (∀ (as : List Move) (now : Nat),
      (.stop ∈ as ∨ .drop ∈ as → (t.moves as).start now = .error .stopped) ∧
      (.stop ∉ as ∧ .drop ∉ as → (∃ earlier, .start earlier ∈ as) →
        (t.moves as).start now = .error .alreadyStarted) ∧
      (.stop ∉ as ∧ .drop ∉ as → (∀ earlier, .start earlier ∉ as) →
        ∃ started, (t.moves as).start now = .ok started)) ∧
    ∀ (earlier later : List Move) (first second : Nat),
      ∃ fault, (t.moves (earlier ++ .start first :: later)).start second = .error fault := by
  refine ⟨?final, start_moves h, ?once⟩
  case final =>
    intro as later stopped u
    have hstopped : stopped.AtRest := by
      cases hserving : (t.moves as).isServing with
      | true => exact atRest_stop hserving
      | false =>
          have hrest := atRest_moves h as hserving
          rw [show stopped = t.moves as from hrest.stop_eq_self]
          exact hrest
    obtain ⟨hrest, hkeeps⟩ := hstopped.moves later
    exact ⟨⟨hrest.dead.trackedNames_eq_nil, fun name r hr => (hrest.dead name r hr).1⟩, hkeeps,
      fun s hs b => hstopped.published_trace_eq_nil hs b, hrest.advance_eq_self, hrest.start_eq,
      hrest.refresh_eq⟩
  case once =>
    intro earlier later first second
    obtain ⟨hended, hrunning, -⟩ := start_moves h (earlier ++ .start first :: later) second
    by_cases hmem : .stop ∈ earlier ++ .start first :: later ∨
        .drop ∈ earlier ++ .start first :: later
    · exact ⟨_, hended hmem⟩
    · exact ⟨_, hrunning (not_or.1 hmem) ⟨first, by simp⟩⟩

/-- It is stopped with a diff in the stream, one in the queue of A, the snapshot router in its pause
and the refresher waiting for the directory; and then all of them are asked to go on. -/
theorem stop_is_final_amid_everything :
    let config : Config := { windowSize := 2, queueCapacity := 4, refreshInterval := 1 }
    let update (id : UInt64) : Update := { instrument := "A", updateId := id, timestamp := 0 }
    let listing (name : String) : Listing :=
      { instrument := name, timestamp := 0, book := .empty name }
    let directory : Directory := { catalog := .ofListings [listing "A"], delay := 5 }
    let t : Tracker := { board := .start config, directory }
    let as : List Move := [.start 0, .perform 0 .refresher, .fire 5, .perform 5 .refresher,
      .send [(.diff, .diff (update 1)), (.diff, .diff (update 2)), (.snapshot, .diff (update 3))],
      .perform 5 .diffRouter, .perform 5 .snapshotRouter, .fire 6, .perform 6 .refresher]
    let later : List Move := [.perform 6 .diffRouter, .perform 6 (.worker "A" 0), .fire 6000,
      .perform 6000 .snapshotRouter, .perform 6000 .refresher, .send [(.diff, .diff (update 4))],
      .changeDirectory { catalog := .ofListings [listing "B"] }, .start 6000, .stop]
    let running := t.moves as
    let u := running.stop.moves later
    new config directory = .ok t ∧
    running.diffs = [.diff (update 2)] ∧
    (running.board.find? "A").map (·.inbox) = some [.diff (update 1)] ∧
    running.timers = [(5005, .snapshotRouter), (11, .refresher)] ∧
    running.turns.current? = some { owner := .periodic, seen? := some ["A"] } ∧
    u.board.trackedNames = [] ∧ running.stop.board.Keeps u.board ∧
    (u.board.find? "A").map (·.book.uid) = some 0 ∧
    u.start 7000 = .error .stopped ∧ u.refresh 7000 = (7000, .failed .stopped, u) := by
  intro config update listing directory t as later running u
  have hnew : new config directory = .ok t := rfl
  have hdiffs : running.diffs = [.diff (update 2)] := by
    unfold running t
    cbv
  have hinbox : (running.board.find? "A").map (·.inbox) = some [.diff (update 1)] := by
    unfold running t
    cbv
  have htimers : running.timers = [(5005, .snapshotRouter), (11, .refresher)] := by
    unfold running t
    cbv
  have hturn : running.turns.current? = some { owner := .periodic, seen? := some ["A"] } := by
    unfold running t
    cbv
  have huid : (u.board.find? "A").map (·.book.uid) = some 0 := by
    unfold u running t
    cbv
  have hphase : u.phase ≠ .dropped := by
    have hphase : u.phase = .stopped true := by
      unfold u running t
      cbv
    rw [hphase]
    exact Phase.noConfusion
  obtain ⟨⟨hnames, -⟩, hkeeps, -, -, hstart, hrefresh⟩ := (stop_is_final hnew).1 as later
  exact ⟨hnew, hdiffs, hinbox, htimers, hturn, hnames, hkeeps, huid, hstart 7000,
    (hrefresh hphase 7000 0).1⟩

end Tracker

end MarketDepth
