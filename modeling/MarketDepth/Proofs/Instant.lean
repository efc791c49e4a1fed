/-
**At one instant.**

While the clock stands still, the ready tasks act and the timers that are due fire, in any order,
and the directory may answer each look-up as it likes.  However it goes, this ends.  What there is
to do is measured by two numbers of which the first counts more.  One is how often the refresher can
still come to act: no step makes this more, and the end of a cycle makes it less, since the
refresher then sleeps.  The other weighs the messages, the ready tasks and the due timers, and every
step that does not make the first number less takes from it.

Main definitions:

* `MarketDepth.Tracker.Acts` — **what can happen at an instant**;
* `MarketDepth.Tracker.chances`, `MarketDepth.Tracker.load` — the two numbers;
* `MarketDepth.Tracker.Rests`, `MarketDepth.Tracker.Dry` — why tasks do nothing more.

Main results:

* `MarketDepth.Tracker.Acts.decreases` — **every step at an instant leaves less to do**;
* `MarketDepth.Tracker.chain_runDry` — running dry is one of the ways to the end;
* `MarketDepth.Tracker.runs_dry` — **all of them end, and then every task rests.**
-/

import MarketDepth.Proofs.Attention
import MarketDepth.Proofs.Schedule
import Mathlib.Logic.Relation

set_option relaxedAutoImplicit false
set_option autoImplicit false

namespace MarketDepth.Tracker

/-! ### What can happen -/

/-- **What can happen while the clock stands still:** a ready task acts, whatever the directory is
like just then, or the timers that are due fire. -/
inductive Acts (now : Nat) (t : Tracker) : Tracker → Prop
  | task (directory : Directory) {task : Task} (h : task ∈ t.ready) :
      Acts now t ({ t with directory }.move (.perform now task))
  | timers (h : ∃ timer ∈ t.timers, timer.1 ≤ now) : Acts now t (t.fire now)

/-- Whatever happens at an instant amounts to moves. -/
theorem Acts.eq_moves {now : Nat} {t t' : Tracker} (h : t.Acts now t') :
    ∃ as, t' = t.moves as := by
  cases h with
  | task directory => exact ⟨[.changeDirectory directory, .perform now _], rfl⟩
  | timers => exact ⟨[.fire now], rfl⟩

theorem eq_moves_of_chain {now : Nat} {t t' : Tracker}
    (h : Relation.ReflTransGen (Acts now) t t') : ∃ as, t' = t.moves as := by
  induction h with
  | refl => exact ⟨[], rfl⟩
  | tail _ hacts ih =>
      obtain ⟨as, rfl⟩ := ih
      obtain ⟨as', rfl⟩ := hacts.eq_moves
      exact ⟨as ++ as', (moves_append t as as').symm⟩

theorem Acts.config_eq {now : Nat} {t t' : Tracker} (h : t.Acts now t') :
    t'.board.config = t.board.config := by
  cases h with
  | task directory => rw [board_move, Board.config_takeAll]
  | timers => rfl

/-- Nothing can happen exactly when nobody is ready and no timer is due. -/
theorem acts_nothing_iff {t : Tracker} {now : Nat} :
    (∀ t', ¬ t.Acts now t') ↔ t.ready = [] ∧ ∀ timer ∈ t.timers, now < timer.1 := by
  constructor
  · intro h
    refine ⟨List.eq_nil_iff_forall_not_mem.2 fun task htask => ?_, fun timer htimer => ?_⟩
    · exact h _ (.task t.directory htask)
    · exact Nat.lt_of_not_le fun hdue => h _ (.timers ⟨timer, htimer, hdue⟩)
  · rintro ⟨hready, hlater⟩ t' hacts
    cases hacts with
    | task directory htask =>
        rw [hready] at htask
        cases htask
    | timers hdue =>
        obtain ⟨timer, htimer, hdue⟩ := hdue
        exact absurd hdue (Nat.not_le_of_lt (hlater timer htimer))

/-! ### How much there is to do -/

/-- The sleeping tasks whose time has come. -/
def due (t : Tracker) (now : Nat) : List Task :=
  (t.timers.filter (·.1 ≤ now)).map (·.2)

/-- How often the refresher is ready or waits for a turn. -/
def hands (t : Tracker) : Nat :=
  t.ready.count .refresher + t.turns.waiting.count .periodic

/-- **How often the refresher can still come to act** before the clock moves. -/
def chances (t : Tracker) (now : Nat) : Nat :=
  t.hands + (t.due now).count .refresher

/-- How much the messages, the ready tasks and the due timers weigh. -/
def load (t : Tracker) (now : Nat) : Nat :=
  t.backlog + 2 * (t.due now).length

/-- Who falls asleep until later is not due. -/
theorem Sleeps.due_eq {t t' : Tracker} {now : Nat} (h : t.Sleeps now t') :
    t'.due now = t.due now := by
  obtain ⟨late, htimers, hlate⟩ := h
  have hnone : late.filter (·.1 ≤ now) = [] := by
    rw [List.filter_eq_nil_iff]
    intro timer htimer
    simpa using hlate timer htimer
  rw [due, htimers, List.filter_append, hnone, List.append_nil, due]

theorem due_fire (t : Tracker) (now : Nat) : (t.fire now).due now = [] := by
  have hnone : (t.timers.filter fun timer => now < timer.1).filter (·.1 ≤ now) = [] := by
    rw [List.filter_eq_nil_iff]
    intro timer htimer
    simpa using (List.mem_filter.1 htimer).2
  rw [due, fire, hnone, List.map_nil]

/-! ### Cycles end in sleep -/

theorem hands_passTurn_le (t : Tracker) : t.passTurn.hands ≤ t.hands := by
  have hcycles := cycles_passTurn_le t
  obtain ⟨ready, hframe⟩ := passTurn_frame t
  have hfailures : t.passTurn.directory.failures = t.directory.failures := by rw [hframe]
  simp only [cycles, hfailures] at hcycles
  simp only [hands]
  omega

theorem hands_concludeCycle_le (t : Tracker) (now : Nat) (seen : List String) :
    (t.concludeCycle now seen).2.hands ≤ t.hands := by
  obtain ⟨directory, board, workers, hworkers, hconclude⟩ := concludeCycle_eq_passTurn t now seen
  rw [hconclude]
  refine Nat.le_trans (hands_passTurn_le _) ?_
  rw [hands, List.count_append, count_refresher_of_workers hworkers, Nat.add_zero]
  exact Nat.le_refl _

/-- **A cycle of the refresher ends in sleep,** so that the refresher does not come to act more
often. -/
theorem hands_finishPeriodic_le {t : Tracker} (hretry : 1 ≤ t.board.config.retryDelay) (now : Nat)
    (seen : List String) : (t.finishPeriodic now seen).hands ≤ t.hands := by
  have hconclude := hands_concludeCycle_le t now seen
  rcases finishPeriodic_inversion t now seen with ⟨due, -, hfinish⟩ | ⟨fault, hfinish⟩
  · rw [hfinish]
    exact hconclude
  · have hdelay : (t.concludeCycle now seen).2.board.config.retryDelay ≠ 0 := by
      obtain ⟨ready, hframe⟩ := concludeCycle_frame t now seen
      rw [hframe]
      simp only [Board.config_takeAll]
      omega
    rw [hfinish]
    dsimp only [pause]
    rw [if_neg hdelay]
    exact hconclude

/-- The refresher ends its cycle or sleeps, or it waits for a turn that a caller has. -/
theorem hands_refreshStep {t : Tracker} (hretry : 1 ≤ t.board.config.retryDelay) (now : Nat) :
    (t.refreshStep now).hands ≤ t.hands ∨
      (t.refreshStep now).hands = t.hands + 1 ∧ (t.refreshStep now).backlog = t.backlog := by
  rcases refreshStep_inversion t now with ⟨_, _, hcurrent, hstep⟩ |
    ⟨turns, -, hwaiting, ⟨due, -, hstep⟩ | ⟨seen, hstep⟩⟩
  · refine .inr ⟨?_, by rw [hstep]; rfl⟩
    rw [hstep, hands, Turns.ask, hcurrent, List.count_append, List.count_singleton_self,
      ← Nat.add_assoc]
    rfl
  · have hsame : ({ t with turns }.sleep due .refresher).hands = t.hands := by
      rw [hands, hands, ← hwaiting]
      rfl
    exact .inl (by rw [hstep, hsame])
  · have hsame : ({ t with turns } : Tracker).hands = t.hands := by
      rw [hands, hands, ← hwaiting]
    have hfinish := hands_finishPeriodic_le (t := { t with turns }) hretry now seen
    exact .inl (by rw [hstep, ← hsame]; exact hfinish)

/-! ### Every step leaves less to do -/

/-- The other tasks do not make the refresher act more often. -/
theorem hands_perform_le (t : Tracker) (now : Nat) {task : Task} (h : task ≠ .refresher) :
    (t.perform now task).hands ≤ t.hands := by
  have hcycles := (perform_of_ne_refresher t now h).1
  obtain ⟨_, _, hframe⟩ := perform_frame_of_ne_refresher t now h
  have hfailures : (t.perform now task).directory.failures = t.directory.failures := by rw [hframe]
  simp only [cycles, hfailures] at hcycles
  simp only [hands]
  omega

theorem hands_erase {t : Tracker} {task : Task} (h : task ∈ t.ready) :
    ({ t with ready := t.ready.erase task } : Tracker).hands + [task].count .refresher =
      t.hands := by
  have hcount := (List.perm_cons_erase h).count_eq .refresher
  rw [← List.singleton_append, List.count_append] at hcount
  simp only [hands]
  omega

theorem backlog_erase {t : Tracker} {task : Task} (h : task ∈ t.ready) :
    ({ t with ready := t.ready.erase task } : Tracker).backlog + 1 = t.backlog := by
  have hlength := List.length_erase_add_one h
  simp only [backlog]
  omega

theorem hands_fire (t : Tracker) (now : Nat) :
    (t.fire now).hands = t.hands + (t.due now).count .refresher := by
  simp only [hands, fire, due, List.count_append]
  omega

theorem backlog_fire (t : Tracker) (now : Nat) :
    (t.fire now).backlog = t.backlog + (t.due now).length := by
  simp only [backlog, fire, due, List.length_append]
  omega

/-- The refresher comes to act less often, or it has left the ready line for the line for turns; any
other task leaves less behind than there was. -/
theorem decreases_of_task {t : Tracker} {task : Task} (h : task ∈ t.ready)
    (hretry : 1 ≤ t.board.config.retryDelay) (now : Nat) :
    (t.move (.perform now task)).hands < t.hands ∨
      (t.move (.perform now task)).hands ≤ t.hands ∧
        (t.move (.perform now task)).backlog < t.backlog := by
  have hhands := hands_erase h
  have hbacklog := backlog_erase h
  simp only [move, if_pos h]
  by_cases hrefresher : task = .refresher
  · subst hrefresher
    rw [List.count_singleton_self] at hhands
    rcases hands_refreshStep (t := { t with ready := t.ready.erase .refresher }) hretry now with
      hfewer | ⟨hsame, hbehind⟩
    · exact .inl (by simp only [perform]; omega)
    · exact .inr (by simp only [perform]; omega)
  · have hhands' := hands_perform_le { t with ready := t.ready.erase task } now hrefresher
    have hbacklog' := (perform_of_ne_refresher { t with ready := t.ready.erase task } now
      hrefresher).2
    exact .inr (by omega)

/-- **Every step at an instant leaves less to do.** -/
theorem Acts.decreases {now : Nat} {t t' : Tracker} (h : t.Acts now t')
    (hretry : 1 ≤ t.board.config.retryDelay) :
    t'.chances now < t.chances now ∨
      t'.chances now = t.chances now ∧ t'.load now < t.load now := by
  cases h with
  | @task directory task htask =>
      have hdue : (({ t with directory } : Tracker).move (.perform now task)).due now =
          t.due now := by
        simp only [move, if_pos htask]
        rw [(sleeps_perform _ now task).due_eq]
        rfl
      have hfewer := decreases_of_task (t := { t with directory }) htask hretry now
      have hhands : ({ t with directory } : Tracker).hands = t.hands := rfl
      have hbacklog : ({ t with directory } : Tracker).backlog = t.backlog := rfl
      simp only [chances, load, hdue]
      omega
  | timers hdue =>
      -- the due timers are gone, and those who slept weigh less now
      have hsome : 0 < (t.due now).length := by
        obtain ⟨timer, htimer, hdue⟩ := hdue
        refine List.length_pos_of_mem (a := timer.2) (List.mem_map.2 ⟨timer, ?_, rfl⟩)
        exact List.mem_filter.2 ⟨htimer, by simpa using hdue⟩
      have hhands := hands_fire t now
      have hbacklog := backlog_fire t now
      simp only [chances, load, due_fire, List.count_nil, List.length_nil]
      omega

/-- **Nothing goes on for ever at an instant.** -/
theorem acc_acts {now : Nat} {t : Tracker} (hretry : 1 ≤ t.board.config.retryDelay) :
    Acc (fun later earlier => Acts now earlier later) t := by
  have hmeasure : WellFounded (InvImage (Prod.Lex (· < ·) (· < ·))
      fun t : Tracker => (t.chances now, t.load now)) :=
    InvImage.wf _ (Prod.lex Nat.lt_wfRel Nat.lt_wfRel).wf
  induction t using hmeasure.induction with
  | _ t ih =>
      refine .intro _ fun t' hacts => ih t' (Prod.lex_def.2 ?_) ?_
      · exact hacts.decreases hretry
      · rw [hacts.config_eq]
        exact hretry

/-! ### One way to the end -/

theorem acts_of_step? {t t' : Tracker} {now : Nat} (h : t.step? now = some t') :
    t.Acts now t' := by
  obtain ⟨task, htask, rfl⟩ := step?_eq_move h
  exact .task t.directory htask

/-- **Running dry is such a chain of steps.** -/
theorem chain_runDry (t : Tracker) (now : Nat) :
    Relation.ReflTransGen (Acts now) t (t.runDry now) := by
  fun_induction runDry t now with
  | case1 t => exact .refl
  | case2 t t' h ih => exact .head (acts_of_step? h) ih

/-- Who falls asleep while the others run dry is not due. -/
theorem sleeps_runDry (t : Tracker) (now : Nat) : t.Sleeps now (t.runDry now) := by
  fun_induction runDry t now with
  | case1 t => exact sleeps_of_eq rfl now
  | case2 t t' h ih =>
      have hstep : t.Sleeps now t' := by
        unfold step? at h
        split at h
        · cases h
        · cases h
          exact sleeps_perform _ now _
      exact hstep.trans ih

theorem fire_eq_self_of_later {t : Tracker} {now : Nat} (h : ∀ timer ∈ t.timers, now < timer.1) :
    t.fire now = t := by
  have hdue : t.timers.filter (·.1 ≤ now) = [] := by
    rw [List.filter_eq_nil_iff]
    intro timer htimer
    simpa using h timer htimer
  have hlater : (t.timers.filter fun timer => now < timer.1) = t.timers := by
    rw [List.filter_eq_self]
    intro timer htimer
    simpa using h timer htimer
  rw [fire, hdue, hlater, List.map_nil, List.append_nil]

/-- **It leads to an end** after the timers have fired that are due. -/
theorem chain_fire_runDry (t : Tracker) (now : Nat) :
    Relation.ReflTransGen (Acts now) t ((t.fire now).runDry now) := by
  by_cases hdue : ∃ timer ∈ t.timers, timer.1 ≤ now
  · exact .head (.timers hdue) (chain_runDry _ now)
  · rw [fire_eq_self_of_later fun timer htimer =>
      Nat.lt_of_not_le fun hnow => hdue ⟨timer, htimer, hnow⟩]
    exact chain_runDry t now

theorem acts_nothing_fire_runDry (t : Tracker) (now : Nat) :
    ∀ t', ¬ ((t.fire now).runDry now).Acts now t' := by
  obtain ⟨late, htimers, hlate⟩ := sleeps_runDry (t.fire now) now
  refine acts_nothing_iff.2 ⟨ready_runDry _ now, fun timer htimer => ?_⟩
  rw [htimers] at htimer
  rcases List.mem_append.1 htimer with htimer | htimer
  · exact of_decide_eq_true (List.mem_filter.1 htimer).2
  · exact hlate timer htimer

/-! ### Rest -/

/-- **Why a task does nothing more for now:** nothing waits for it, it sleeps until later, be it for
a pause, for its next cycle or for the answer of the directory, or it waits for a turn that a caller
has. -/
inductive Rests (t : Tracker) (now : Nat) : Task → Prop
  | idle {task : Task} (h : task ≠ .refresher) (hinput : t.input task = []) : Rests t now task
  | asleep {task : Task} {due : Nat} (hlater : now < due) (hsleeps : (due, task) ∈ t.timers) :
      Rests t now task
  | inLine {caller : Nat} (hwaits : .periodic ∈ t.turns.waiting)
      (hheld : t.turns.isHeldBy (.caller caller) = true) : Rests t now .refresher

/-- **The tracker has run dry:** nobody is ready, no timer is due, and every task rests. -/
structure Dry (t : Tracker) (now : Nat) : Prop where
  ready : t.ready = []
  timers : ∀ timer ∈ t.timers, now < timer.1
  rests : ∀ task, t.Runs task → t.Rests now task

/-- Where nothing can happen every task rests, if nobody has been forgotten. -/
theorem dry_of_end {t : Tracker} {now : Nat} (hattentive : t.Attentive) (horderly : t.Orderly)
    (hend : ∀ t', ¬ t.Acts now t') : t.Dry now := by
  obtain ⟨hready, htimers⟩ := acts_nothing_iff.1 hend
  have hasleep : ∀ task ∈ t.scheduled, t.Rests now task := by
    intro task htask
    rcases mem_scheduled_iff.1 htask with htask | ⟨due, hsleeps⟩
    · rw [hready] at htask
      cases htask
    · exact .asleep (htimers _ hsleeps) hsleeps
  refine ⟨hready, htimers, fun task hruns => ?_⟩
  by_cases hrefresher : task = .refresher
  · subst hrefresher
    rcases horderly.refresher_scheduled (hruns.resolve_left (by simp [Task.role])) with
      hscheduled | ⟨hwaits, caller, hheld⟩
    · exact hasleep _ hscheduled
    · exact .inLine hwaits hheld
  · by_cases hinput : t.input task = []
    · exact .idle hrefresher hinput
    · exact hasleep _ (hattentive task hruns hinput)

/-- **A tracker runs dry at every instant,** whatever the streams and the queues contain and however
the directory answers, if tasks pause after faults: nothing goes on for ever, firing and running dry
is a way to the end, and every end finds all tasks at rest.  For a refresh interval of 0 this says
nothing about the tracker that is meant, since `finishPeriodic` takes it for a millisecond. -/
theorem runs_dry {config : Config} {directory : Directory} {t : Tracker}
    (h : new config directory = .ok t) (hretry : 1 ≤ config.retryDelay) (as : List Move)
    (now : Nat) :
    Acc (fun later earlier => Acts now earlier later) (t.moves as) ∧
    (Relation.ReflTransGen (Acts now) (t.moves as) (((t.moves as).fire now).runDry now) ∧
      ∀ t', ¬ (((t.moves as).fire now).runDry now).Acts now t') ∧
    ∀ last, Relation.ReflTransGen (Acts now) (t.moves as) last → (∀ t', ¬ last.Acts now t') →
      last.Dry now := by
  refine ⟨acc_acts (by rw [config_moves_of_new h]; exact hretry),
    ⟨chain_fire_runDry _ now, acts_nothing_fire_runDry _ now⟩, fun last hchain hend => ?_⟩
  obtain ⟨as', rfl⟩ := eq_moves_of_chain hchain
  rw [← moves_append] at hend ⊢
  exact dry_of_end (attentive_of_moves h _) (orderly_of_moves h _) hend

/-- The directory fails and a snapshot has got into the diff stream: two tasks end in a pause, and
the two others find nothing to do. -/
theorem runs_dry_after_faults :
    let config : Config := { retryDelay := 1 }
    let directory : Directory := { failures := 1 }
    let t : Tracker := { board := .start config, directory }
    let snapshot : Update := { instrument := "A", updateId := 1, timestamp := 0 }
    let as : List Move := [.start 0, .send [(.diff, .snapshot snapshot)]]
    let last := ((t.moves as).fire 0).runDry 0
    new config directory = .ok t ∧ 1 ≤ config.retryDelay ∧
    Acc (fun later earlier => Acts 0 earlier later) (t.moves as) ∧
    last.timers = [(1, .diffRouter), (1, .refresher)] ∧ last.Dry 0 := by
  intro config directory t snapshot as last
  have hnew : new config directory = .ok t := rfl
  have hretry : 1 ≤ config.retryDelay := by decide
  have htimers : last.timers = [(1, .diffRouter), (1, .refresher)] := by
    unfold last t
    cbv
  obtain ⟨hacc, ⟨hchain, hend⟩, hdry⟩ := runs_dry hnew hretry as 0
  exact ⟨hnew, hretry, hacc, htimers, hdry last hchain hend⟩

end MarketDepth.Tracker
