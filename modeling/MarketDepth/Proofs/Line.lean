/-
**The line for turns.**

Refresh cycles take turns, and those who wait for one stand in line.  While they wait, tasks act and
timers fire, but in the line only the periodic cycle comes and goes: it joins the line at the end
and leaves it from the head.  So callers keep their order, and none of them drops out.  And no turn
is left lying.  One that is passed to the refresher wakes it, since a refresher in line is neither
ready nor asleep; and then it stays ready until it begins its cycle, whatever the others do.

Main definitions:

* `MarketDepth.Turns.callers` — the callers in line;
* `MarketDepth.Tracker.Tended` — **the refresher is ready when a turn has just come to it.**

Main results:

* `MarketDepth.Tracker.line_perform`, `MarketDepth.Tracker.RunsTo.callers_eq` — **what tasks and
  timers do to the line**;
* `MarketDepth.Tracker.mem_ready_perform` — who is ready stays ready when others act;
* `MarketDepth.Tracker.tended_of_moves` — no turn is left lying, at any time.
-/

import MarketDepth.Proofs.Schedule
import MarketDepth.Proofs.Scheduled

set_option relaxedAutoImplicit false
set_option autoImplicit false

namespace MarketDepth

/-! ### Callers in line -/

/-- Which caller this is, if it is one. -/
def Requester.caller? : Requester → Option Nat
  | periodic => none
  | caller number => some number

namespace Turns

/-- **The callers in line,** in their order. -/
def callers (turns : Turns) : List Nat :=
  turns.line.filterMap Requester.caller?

variable {turns : Turns} {caller : Nat}

theorem eq_of_waiting {current? : Option Turn} (h : turns.current? = current?)
    (hwaiting : turns.waiting = []) : turns = { current? } := by
  obtain ⟨_, _⟩ := turns
  subst h hwaiting
  rfl

theorem isHeldBy_iff {who : Requester} :
    turns.isHeldBy who = true ↔ ∃ seen?, turns.current? = some { owner := who, seen? } := by
  rw [isHeldBy]
  rcases turns.current? with _ | ⟨owner, seen?⟩
  · simp
  · rw [Option.any_some, beq_iff_eq]
    refine ⟨?_, ?_⟩
    · rintro rfl
      exact ⟨seen?, rfl⟩
    · rintro ⟨_, h⟩
      exact congrArg Turn.owner (Option.some.inj h)

/-- Who leaves is taken out of the line. -/
theorem line_leave (turns : Turns) (who : Requester) :
    (turns.leave who).line = turns.line.erase who := by
  unfold leave
  split
  next held =>
    obtain ⟨seen?, hcurrent⟩ := isHeldBy_iff.1 held
    rw [line_pass hcurrent, List.erase_cons_head]
  next hnot =>
    cases hcurrent : turns.current? with
    | none => simp [line, hcurrent]
    | some turn =>
        have hne : turn.owner ≠ who := by simpa [isHeldBy, hcurrent] using hnot
        simp [line, hcurrent, List.erase_cons_tail, hne]

theorem callers_ask (h : turns.current? = none → turns.waiting = []) (caller : Nat) :
    (turns.ask (.caller caller)).callers = turns.callers ++ [caller] := by
  simp [callers, line_ask _ h, Requester.caller?]

@[simp] theorem callers_begin (turns : Turns) (seen : List String) :
    (turns.begin seen).callers = turns.callers := by
  rw [callers, line_begin, callers]

/-- A caller whose cycle is over is the first that leaves the line. -/
theorem callers_pass {seen? : Option (List String)}
    (h : turns.current? = some { owner := .caller caller, seen? }) :
    turns.callers = caller :: turns.pass.callers := by
  rw [callers, line_pass h]
  rfl

/-- When the only caller in line gives up, there is none. -/
theorem callers_leave (h : turns.callers = [caller]) :
    (turns.leave (.caller caller)).callers = [] := by
  have hmem : .caller caller ∈ turns.line := by
    have hcaller : caller ∈ turns.callers := by
      rw [h]
      exact List.mem_singleton_self caller
    obtain ⟨who, hwho, hnumber⟩ := List.mem_filterMap.1 hcaller
    cases who with
    | periodic => cases hnumber
    | caller number => exact Option.some.inj hnumber ▸ hwho
  have hperm := (List.perm_cons_erase hmem).filterMap Requester.caller?
  rw [← callers, h, ← line_leave] at hperm
  have hlength : [caller].length = (caller :: (turns.leave (.caller caller)).callers).length :=
    hperm.length_eq
  exact List.eq_nil_of_length_eq_zero (Nat.succ.inj hlength).symm

/-- In a line without callers there is only the periodic cycle. -/
theorem eq_periodic_of_callers (h : turns.callers = []) {who : Requester}
    (hwho : who ∈ turns.line) : who = .periodic := by
  have hnone := List.filterMap_eq_nil_iff.1 h who hwho
  cases who with
  | periodic => rfl
  | caller number => cases hnone

/-- Who does not wait does not get the turn that is passed on. -/
theorem isHeldBy_pass_of_not_mem {who : Requester} (h : who ∉ turns.waiting) :
    turns.pass.isHeldBy who = false := by
  unfold pass
  split
  next => rfl
  next next waiting hwaiting =>
    rw [hwaiting] at h
    simpa [isHeldBy] using fun hnext : next = who => h (hnext ▸ List.mem_cons_self)

end Turns

namespace Tracker

/-! ### What tasks do to the line -/

/-- **Tasks leave the line as it is,** but for the periodic cycle, which joins it at the end or
leaves it from the head. -/
theorem line_perform {t : Tracker} (h : t.turns.Proper) (now : Nat) (task : Task) :
    (t.perform now task).turns.line = t.turns.line ∨
      (t.perform now task).turns.line = t.turns.line ++ [.periodic] ∨
      t.turns.line = .periodic :: (t.perform now task).turns.line := by
  by_cases htask : task = .refresher
  · subst htask
    simp only [perform, refreshStep]
    rcases hcurrent : t.turns.current? with _ | ⟨_ | caller, _ | seen⟩
    · -- the turn is free: the cycle begins, and may be over at once
      have hline : t.turns.line = [] := by rw [Turns.line, hcurrent, h.free hcurrent]
      have hbegun : ((t.turns.ask .periodic).begin t.board.trackedNames).current? =
          some { owner := .periodic, seen? := some t.board.trackedNames } := by
        rw [Turns.begin, Turns.ask, hcurrent, Option.map_some]
      dsimp only
      rw [turns_beginPeriodic]
      split
      · have hpass := Turns.line_pass hbegun
        rw [Turns.line_begin, Turns.line_ask _ h.free, hline] at hpass
        rw [hline]
        exact .inl (List.cons.inj hpass).2.symm
      · rw [Turns.line_begin, Turns.line_ask _ h.free]
        exact .inr (.inl rfl)
    · have hbegun : (t.turns.begin t.board.trackedNames).current? =
          some { owner := .periodic, seen? := some t.board.trackedNames } := by
        rw [Turns.begin, hcurrent, Option.map_some]
      dsimp only
      rw [turns_beginPeriodic]
      split
      · have hpass := Turns.line_pass hbegun
        rw [Turns.line_begin] at hpass
        exact .inr (.inr hpass)
      · exact .inl (Turns.line_begin _ _)
    · dsimp only
      rw [turns_finishPeriodic]
      exact .inr (.inr (Turns.line_pass hcurrent))
    · exact .inr (.inl (Turns.line_ask _ h.free))
    · exact .inr (.inl (Turns.line_ask _ h.free))
  · rw [turns_perform_of_ne_refresher t now htask]
    exact .inl rfl

/-- **Callers keep their order,** and nobody drops out, whatever tasks and timers do. -/
theorem callers_move_of_isInner {t : Tracker} (h : t.turns.Proper) {a : Move} (ha : a.IsInner) :
    (t.move a).turns.callers = t.turns.callers := by
  cases a with
  | perform now task =>
      simp only [move]
      split
      case isTrue =>
        rcases line_perform (t := { t with ready := t.ready.erase task }) h now task with
          hline | hline | hline
        · rw [Turns.callers, hline, Turns.callers]
        · rw [Turns.callers, hline, List.filterMap_append]
          exact List.append_nil _
        · exact (congrArg (List.filterMap Requester.caller?) hline).symm
      case isFalse => rfl
  | fire now => rfl
  | _ => exact ha.elim

theorem RunsTo.orderly {t t' : Tracker} (h : t.RunsTo t') (horderly : t.Orderly) : t'.Orderly := by
  obtain ⟨as, rfl⟩ := h.eq_moves
  exact horderly.moves as

theorem RunsTo.callers_eq {t t' : Tracker} (h : t.RunsTo t') (horderly : t.Orderly) :
    t'.turns.callers = t.turns.callers := by
  refine (h.keeps (P := fun u => u.Orderly ∧ u.turns.callers = t.turns.callers) ?_
    ⟨horderly, rfl⟩).2
  rintro u a ha ⟨hu, hcallers⟩
  exact ⟨hu.move a, (callers_move_of_isInner hu.turns ha).trans hcallers⟩

/-! ### Who is ready stays ready -/

section Ready

variable {t : Tracker} {who : Task}

theorem mem_ready_wake (h : who ∈ t.ready) (task : Task) : who ∈ (t.wake task).ready := by
  rw [wake_eq]
  split
  · exact h
  · exact List.mem_append_left _ h

theorem mem_ready_pause (h : who ∈ t.ready) (now : Nat) (task : Task) (fault : Fault) :
    who ∈ (t.pause now task fault).ready := by
  dsimp only [pause]
  split
  · exact List.mem_cons_of_mem _ h
  · exact h

theorem mem_ready_afterMessage (h : who ∈ t.ready) (now : Nat) (task : Task)
    (fault? : Option Fault) : who ∈ (t.afterMessage now task fault?).ready := by
  cases fault? with
  | none => exact List.mem_cons_of_mem _ h
  | some fault => exact mem_ready_pause h now task fault

theorem mem_ready_afterRouting (h : who ∈ t.ready) (now : Nat) (task : Task) (instrument : String)
    (result : Except Fault Offer) :
    who ∈ (t.afterRouting now task instrument result).ready := by
  cases result with
  | error fault => exact mem_ready_pause h now task fault
  | ok offer =>
      cases offer with
      | queued =>
          refine List.mem_cons_of_mem _ ?_
          unfold wakeWorker
          split
          · exact mem_ready_wake h _
          · exact h
      | _ => exact List.mem_cons_of_mem _ h

/-- **The others stay ready** when a task acts that is not the refresher. -/
theorem mem_ready_perform (h : who ∈ t.ready) (now : Nat) {task : Task}
    (htask : task ≠ .refresher) : who ∈ (t.perform now task).ready := by
  cases task with
  | tradeEmitter =>
      simp only [perform]
      split
      · exact h
      · exact mem_ready_afterMessage (by exact h) now .tradeEmitter _
  | diffRouter =>
      simp only [perform]
      split
      · exact h
      · exact mem_ready_afterRouting (by exact h) now .diffRouter _ _
  | snapshotRouter =>
      simp only [perform]
      split
      · exact h
      · exact mem_ready_afterRouting (by exact h) now .snapshotRouter _ _
  | refresher => exact absurd rfl htask
  | worker instrument serial =>
      simp only [perform]
      split
      · exact h
      · split
        · exact mem_ready_afterMessage (by exact h) now (.worker instrument serial) _
        · exact h

end Ready

/-! ### No turn is left lying -/

/-- A refresher that is scheduled or waits for a turn is that of a running tracker. -/
theorem Orderly.running {t : Tracker} (h : t.Orderly)
    (hplace : .refresher ∈ t.scheduled ∨ .periodic ∈ t.turns.waiting) : t.phase = .running := by
  by_contra hphase
  have hnone := h.refresher
  rw [if_neg hphase, places, Nat.add_eq_zero_iff, List.count_eq_zero, List.count_eq_zero] at hnone
  exact hplace.elim hnone.1 hnone.2

/-- **The refresher tends to its turns:** it has one only in a running tracker, and when one has
just come to it, it is ready to begin the cycle. -/
structure Tended (t : Tracker) : Prop where
  running : t.turns.isHeldBy .periodic = true → t.phase = .running
  awake : t.turns.current? = some { owner := .periodic } → .refresher ∈ t.ready

namespace Tended

variable {t t' : Tracker}

theorem of_not_held (h : t.turns.isHeldBy .periodic = false) : t.Tended where
  running held := by
    rw [h] at held
    cases held
  awake hcurrent := by
    rw [Turns.isHeldBy, hcurrent] at h
    cases h

/-- What does not concern the turns takes none from a refresher that is ready. -/
theorem congr (h : t.Tended) (hturns : t'.turns = t.turns) (hphase : t'.phase = t.phase)
    (hready : .refresher ∈ t.ready → .refresher ∈ t'.ready) : t'.Tended where
  running held := by
    rw [hturns] at held
    exact hphase.trans (h.running held)
  awake hcurrent := by
    rw [hturns] at hcurrent
    exact hready (h.awake hcurrent)

/-- A turn that passes to the refresher wakes it, since it waits nowhere else. -/
theorem of_passTurn (h : t.places = if t.phase = .running then 1 else 0) : t.passTurn.Tended := by
  obtain ⟨ready, hframe⟩ := passTurn_frame t
  by_cases hheld : t.turns.pass.isHeldBy .periodic = true
  · have hwaits : .periodic ∈ t.turns.waiting := by
      by_contra hnot
      rw [Turns.isHeldBy_pass_of_not_mem hnot] at hheld
      cases hheld
    have hcount := List.count_pos_iff.2 hwaits
    have hrunning : t.phase = .running := by
      by_contra hphase
      rw [if_neg hphase, places] at h
      omega
    have hnot : Task.refresher ∉ ({ t with turns := t.turns.pass } : Tracker).scheduled := by
      rw [if_pos hrunning, places] at h
      exact List.count_eq_zero.1 (show t.scheduled.count .refresher = 0 by omega)
    refine ⟨fun _ => by rw [hframe]; exact hrunning, fun _ => ?_⟩
    simp only [passTurn, hheld, if_true]
    rw [wake_eq, if_neg hnot]
    exact List.mem_append_right _ (List.mem_singleton_self _)
  · refine of_not_held ?_
    rw [hframe]
    exact Bool.eq_false_iff.2 hheld

theorem of_concludeCycle (h : t.Orderly) (now : Nat) (seen : List String) :
    (t.concludeCycle now seen).2.Tended := by
  obtain ⟨directory, board, workers, hworkers, hconclude⟩ := concludeCycle_eq_passTurn t now seen
  have hadds : t.Adds workers { t with directory, board, ready := t.ready ++ workers } :=
    adds_of_ready rfl rfl
  have hplaces := hadds.places_eq rfl
  rw [count_refresher_of_workers hworkers, Nat.zero_add, h.refresher] at hplaces
  rw [hconclude]
  exact of_passTurn hplaces

/-- The refresher leaves behind a cycle that has noted what is live, or a turn that is not its
own. -/
theorem of_refreshStep (h : t.turns.Proper) (hwaits : .periodic ∉ t.turns.waiting)
    (hrunning : t.phase = .running) (now : Nat) : (t.refreshStep now).Tended := by
  have hphase : (t.refreshStep now).phase = .running := by
    obtain ⟨_, _, _, _, hframe⟩ := refreshStep_frame t now
    rw [hframe]
    exact hrunning
  have hpass : ∀ turns : Turns, .periodic ∉ turns.waiting →
      turns.pass.current? ≠ some { owner := .periodic } := by
    intro turns hnot hcurrent
    have hheld := Turns.isHeldBy_iff.2 ⟨none, hcurrent⟩
    rw [Turns.isHeldBy_pass_of_not_mem hnot] at hheld
    cases hheld
  have hbegin : ∀ rest : Tracker, .periodic ∉ rest.turns.waiting →
      (rest.beginPeriodic now).turns.current? ≠ some { owner := .periodic } := by
    intro rest hnot
    rw [turns_beginPeriodic]
    split
    · exact hpass _ hnot
    · intro hcurrent
      obtain ⟨turn, -, hturn⟩ := Option.map_eq_some_iff.1 hcurrent
      cases congrArg Turn.seen? hturn
  refine ⟨fun _ => hphase, fun hcurrent' => ?_⟩
  simp only [refreshStep] at hcurrent'
  rcases hcurrent : t.turns.current? with _ | ⟨_ | caller, _ | seen⟩
  · rw [hcurrent] at hcurrent'
    refine absurd hcurrent' (hbegin { t with turns := t.turns.ask .periodic } ?_)
    simp [Turns.ask, hcurrent, h.free hcurrent]
  · rw [hcurrent] at hcurrent'
    exact absurd hcurrent' (hbegin t hwaits)
  · rw [hcurrent] at hcurrent'
    dsimp only at hcurrent'
    rw [turns_finishPeriodic] at hcurrent'
    exact absurd hcurrent' (hpass _ hwaits)
  · simp [hcurrent, Turns.ask] at hcurrent'
  · simp [hcurrent, Turns.ask] at hcurrent'

theorem push (h : t.Tended) (stream : Kind) (m : Message) : (t.push stream m).Tended := by
  rw [push_eq]
  split
  · obtain ⟨_, hwake⟩ := wake_frame (t.setStream stream (t.stream stream ++ [m])) stream.reader
    refine h.congr (by rw [hwake]; simp) (by rw [hwake]; simp) fun hready => ?_
    exact mem_ready_wake (by simpa using hready) _
  · exact h.congr (by simp) (by simp) (by simp)

/-- **Every move leaves the refresher tending to its turns.** -/
theorem move (h : t.Tended) (horderly : t.Orderly) (a : Move) : (t.move a).Tended := by
  cases a with
  | perform now task =>
      simp only [Tracker.move]
      split
      case isFalse => exact h
      case isTrue hready =>
        by_cases htask : task = .refresher
        · subst htask
          -- it was ready, so it did not wait for a turn
          have hscheduled := List.mem_append_left (t.timers.map (·.2)) hready
          have hcount := List.count_pos_iff.2 hscheduled
          have hplaces := horderly.places_le_one
          have hwaits : .periodic ∉ t.turns.waiting := by
            rw [places, scheduled] at hplaces
            exact List.count_eq_zero.1 (by omega)
          exact of_refreshStep (t := { t with ready := t.ready.erase .refresher }) horderly.turns
            hwaits (horderly.running (.inl hscheduled)) now
        · obtain ⟨_, _, hframe⟩ := perform_frame_of_ne_refresher
            { t with ready := t.ready.erase task } now htask
          refine h.congr (by rw [hframe]) (by rw [hframe]) fun hready' => ?_
          exact mem_ready_perform ((List.mem_erase_of_ne (Ne.symm htask)).2 hready') now htask
  | fire now => exact h.congr rfl rfl (List.mem_append_left _)
  | start now =>
      simp only [Tracker.move, start]
      cases t.phase with
      | idle => exact ⟨fun _ => rfl, fun hcurrent => List.mem_append_left _ (h.awake hcurrent)⟩
      | _ => exact h
  | stop =>
      simp only [Tracker.move, stop]
      cases t.phase with
      | idle => exact of_not_held rfl
      | running => exact of_not_held rfl
      | _ => exact h
  | drop => exact of_not_held rfl
  | send messages =>
      simp only [Tracker.move, send]
      split
      · exact List.foldlRecOn messages _ h fun t ht m _ => ht.push m.1 m.2
      · exact h
  | ask caller =>
      simp only [Tracker.move]
      split
      · cases hcurrent : t.turns.current? with
        | none => exact of_not_held (by simp [askTurn, Turns.ask, hcurrent, Turns.isHeldBy])
        | some turn =>
            have hsame : (t.turns.ask (.caller caller)).current? = t.turns.current? := by
              simp [Turns.ask, hcurrent]
            refine ⟨fun held => h.running ?_, fun hfresh => h.awake ?_⟩
            · rwa [Turns.isHeldBy, askTurn, hsame] at held
            · rwa [askTurn, hsame] at hfresh
      · exact h
  | begin caller =>
      simp only [Tracker.move]
      split
      case h_1 owner hcurrent =>
        split
        case isTrue hmine =>
          exact of_not_held (by simp [Turns.isHeldBy, Turns.begin, hcurrent, hmine])
        case isFalse => exact h
      case h_2 => exact h
  | conclude now caller =>
      simp only [Tracker.move]
      split
      · split
        · exact of_concludeCycle horderly now _
        · exact h
      · exact h
  | leave caller =>
      simp only [Tracker.move, leaveTurn]
      split
      · exact of_passTurn horderly.refresher
      next hnot =>
        have hsame : (t.turns.leave (.caller caller)).current? = t.turns.current? := by
          rw [Turns.leave, if_neg hnot]
        refine ⟨fun held => h.running ?_, fun hfresh => h.awake ?_⟩
        · rwa [Turns.isHeldBy, hsame] at held
        · rwa [hsame] at hfresh
  | refreshDetached now =>
      simp only [Tracker.move, refreshDetached]
      split
      · split
        · exact h
        · split <;> exact h.congr rfl rfl id
      · exact h
  | takeResyncs =>
      simp only [Tracker.move, takeResyncs]
      split <;> exact h.congr rfl rfl id
  | _ => exact h.congr rfl rfl id

end Tended

/-- **No turn is left lying,** at any time. -/
theorem tended_of_moves {config : Config} {directory : Directory} {t : Tracker}
    (h : new config directory = .ok t) (as : List Move) : (t.moves as).Tended := by
  induction as using List.reverseRecOn with
  | nil =>
      rw [moves_nil, eq_of_new h]
      exact .of_not_held rfl
  | append_singleton as a ih =>
      rw [moves_concat]
      exact ih.move (orderly_of_moves h as) a

end Tracker

end MarketDepth
