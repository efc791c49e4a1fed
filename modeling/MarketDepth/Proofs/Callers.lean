/-
**Callers of refresh cycles.**

A caller asks for a turn, waits until those before it are done, and runs its cycle, unless it gives
up.  One that finds the periodic cycle on waits for the refresher's timer; once this has fired the
refresher is ready, and when it has acted its turn is over and the caller has one.  Hence cycles on
demand are lists of moves, whether or not they have to wait.  So is all else that can be done with a
tracker, and in the end nobody is ready and no caller is left in line: whatever holds after every
list of moves holds of trackers as they are used.

Main definitions:

* `MarketDepth.Tracker.HasTurn`, `MarketDepth.Tracker.Nears` — a caller has its turn, or is next and
  the turn will come;
* `MarketDepth.Tracker.Quiet`, `MarketDepth.Tracker.Settles` — nobody is ready and no caller is in
  line, after a list of moves;
* `MarketDepth.Tracker.Session` — **all that can be done with a tracker from outside.**

Main results:

* `MarketDepth.Tracker.Nears.awaitTurn` — **a caller that waits gets its turn**;
* `MarketDepth.Tracker.runCycle_eq_moves` — and runs its cycle, after which the next one has it;
* `MarketDepth.Tracker.settles_refresh`, `MarketDepth.Tracker.settles_refreshWithin`,
  `MarketDepth.Tracker.settles_refreshBoth` — **cycles on demand are lists of moves**;
* `MarketDepth.Tracker.settles_of_session` — **and so is everything that can be done.**
-/

import MarketDepth.Proofs.Attention
import MarketDepth.Proofs.Line

set_option relaxedAutoImplicit false
set_option autoImplicit false

namespace MarketDepth.Tracker

/-! ### Waiting for a turn -/

/-- **A caller has its turn,** its cycle has not begun, and these callers are next. -/
structure HasTurn (t : Tracker) (caller : Nat) (others : List Nat) : Prop where
  current : t.turns.current? = some { owner := .caller caller }
  waiting : others.map .caller <+: t.turns.waiting

/-- **A caller has its turn or is next:** in the latter case the periodic cycle is on, and the
refresher is ready to end it, or sleeps until a time at most. -/
inductive Nears (t : Tracker) (due? : Option Nat) (caller : Nat) (others : List Nat) : Prop
  | turn (h : t.HasTurn caller others)
  | next {seen : List String}
      (current : t.turns.current? = some { owner := .periodic, seen? := some seen })
      (waiting : (caller :: others).map .caller <+: t.turns.waiting)
      (comes : .refresher ∈ t.ready ∨ ∃ due ∈ due?, (due, .refresher) ∈ t.timers)

/-- While a caller has its turn, tasks and timers leave it the turn, and who waits keeps its
place. -/
theorem caller_move_of_isInner {t : Tracker} {caller : Nat} {seen? : Option (List String)}
    (h : t.turns.current? = some { owner := .caller caller, seen? }) {a : Move} (ha : a.IsInner) :
    (t.move a).turns.current? = some { owner := .caller caller, seen? } ∧
      t.turns.waiting <+: (t.move a).turns.waiting := by
  cases a with
  | perform now task =>
      simp only [move]
      split
      case isFalse => exact ⟨h, List.prefix_refl _⟩
      case isTrue =>
        by_cases htask : task = .refresher
        · subst htask
          simp [perform, refreshStep, h, Turns.ask]
        · rw [turns_perform_of_ne_refresher _ now htask]
          exact ⟨h, List.prefix_refl _⟩
  | fire now => exact ⟨h, List.prefix_refl _⟩
  | _ => exact ha.elim

theorem RunsTo.caller {t t' : Tracker} (h : t.RunsTo t') {caller : Nat}
    {seen? : Option (List String)}
    (hcurrent : t.turns.current? = some { owner := .caller caller, seen? }) :
    t'.turns.current? = some { owner := .caller caller, seen? } ∧
      t.turns.waiting <+: t'.turns.waiting := by
  refine h.keeps (P := fun u => u.turns.current? = some { owner := .caller caller, seen? } ∧
    t.turns.waiting <+: u.turns.waiting) ?_ ⟨hcurrent, List.prefix_refl _⟩
  rintro u a ha ⟨hu, hwaiting⟩
  obtain ⟨hcurrent', hwaiting'⟩ := caller_move_of_isInner hu ha
  exact ⟨hcurrent', hwaiting.trans hwaiting'⟩

theorem RunsTo.hasTurn {t t' : Tracker} (h : t.RunsTo t') {caller : Nat} {others : List Nat}
    (hturn : t.HasTurn caller others) : t'.HasTurn caller others := by
  obtain ⟨hcurrent, hwaiting⟩ := h.caller hturn.current
  exact ⟨hcurrent, hturn.waiting.trans hwaiting⟩

/-- The turn that is passed on is that of the first who waits. -/
theorem hasTurn_of_pass {t t' : Tracker} {caller : Nat} {others : List Nat}
    (hwaiting : (caller :: others).map .caller <+: t.turns.waiting)
    (h : t'.turns = t.turns.pass) : t'.HasTurn caller others := by
  obtain ⟨behind, hbehind⟩ := hwaiting
  simp only [Turns.pass, ← hbehind, List.map_cons, List.cons_append] at h
  exact ⟨by rw [h], by rw [h]; exact List.prefix_append _ _⟩

namespace Nears

variable {t t' : Tracker} {due? : Option Nat} {caller : Nat} {others : List Nat}

/-- **The refresher gets on with its cycle,** and nobody else gets between. -/
theorem move (h : t.Nears due? caller others) {a : Move} (ha : a.IsInner) :
    (t.move a).Nears due? caller others := by
  cases h with
  | turn h => exact .turn ((runsTo_move t ha).hasTurn h)
  | @next seen current waiting comes =>
      cases a with
      | perform now task =>
          simp only [Tracker.move]
          split
          case isFalse => exact .next current waiting comes
          case isTrue =>
            by_cases htask : task = .refresher
            · subst htask
              refine .turn (hasTurn_of_pass waiting ?_)
              simp only [perform, refreshStep, current]
              exact turns_finishPeriodic _ now seen
            · have hturns := turns_perform_of_ne_refresher
                { t with ready := t.ready.erase task } now htask
              refine .next (by rw [hturns]; exact current) (by rw [hturns]; exact waiting) ?_
              rcases comes with hready | ⟨due, hdue, hasleep⟩
              · have hready' := (List.mem_erase_of_ne (Ne.symm htask)).2 hready
                exact .inl (mem_ready_perform hready' now htask)
              · obtain ⟨late, htimers, -⟩ :=
                  sleeps_perform { t with ready := t.ready.erase task } now task
                rw [htimers]
                exact .inr ⟨due, hdue, List.mem_append_left _ hasleep⟩
      | fire now =>
          refine .next current waiting ?_
          rcases comes with hready | ⟨due, hdue, hasleep⟩
          · exact .inl (List.mem_append_left _ hready)
          · by_cases hnow : due ≤ now
            · exact .inl (mem_ready_fire hasleep hnow)
            · refine .inr ⟨due, hdue, List.mem_filter.2 ⟨hasleep, decide_eq_true ?_⟩⟩
              exact Nat.lt_of_not_le hnow
      | _ => exact ha.elim

theorem of_runsTo (h : t.RunsTo t') (hnears : t.Nears due? caller others) :
    t'.Nears due? caller others :=
  h.keeps (P := fun u => u.Nears due? caller others) (fun _ _ ha hu => hu.move ha) hnears

/-- When its timer has fired the refresher is ready. -/
theorem fire_of_due (h : t.Nears due? caller others) {now : Nat}
    (hdue : ∀ due ∈ due?, due ≤ now) : (t.fire now).Nears none caller others := by
  cases h with
  | turn h => exact .turn ⟨h.current, h.waiting⟩
  | next current waiting comes =>
      refine .next current waiting (.inl ?_)
      rcases comes with hready | ⟨due, hmem, hasleep⟩
      · exact List.mem_append_left _ hready
      · exact mem_ready_fire hasleep (hdue due hmem)

/-- **When nobody is ready any more, the caller has its turn.** -/
theorem hasTurn (h : t.Nears none caller others) (hready : t.ready = []) :
    t.HasTurn caller others := by
  cases h with
  | turn h => exact h
  | next current waiting comes =>
      rcases comes with hmem | ⟨due, hdue, -⟩
      · rw [hready] at hmem
        cases hmem
      · cases hdue

/-- **A caller that waits gets its turn.** -/
theorem awaitTurn (h : t.Nears t.lookupDue? caller others) (now : Nat) :
    t.RunsTo (t.awaitTurn now (.caller caller)).2 ∧
      (t.awaitTurn now (.caller caller)).2.HasTurn caller others := by
  by_cases hheld : t.turns.isHeldBy (.caller caller) = true
  · rw [Tracker.awaitTurn, if_pos hheld]
    refine ⟨.refl t, ?_⟩
    cases h with
    | turn h => exact h
    | next current =>
        obtain ⟨_, hcurrent⟩ := Turns.isHeldBy_iff.1 hheld
        rw [current] at hcurrent
        cases hcurrent
  · rw [Tracker.awaitTurn, if_neg hheld]
    have hlast : ∀ due ∈ t.lookupDue?, due ≤ t.turnDue now (.caller caller) := by
      intro due hdue
      rw [turnDue, if_neg hheld, Option.mem_def.1 hdue]
      exact Nat.le_max_right _ _
    dsimp only
    generalize t.turnDue now (.caller caller) = target at hlast
    obtain ⟨u, hu, hreach⟩ := runsTo_reach t now target
    refine ⟨(runsTo_of_reach t now target).trans (runsTo_runDry _ target), ?_⟩
    rw [hreach]
    have hfired := (of_runsTo hu h).fire_of_due hlast
    exact (of_runsTo (runsTo_runDry _ target) hfired).hasTurn (ready_runDry _ target)

end Nears

/-! ### Running a cycle -/

/-- **The cycle of a caller that has its turn is a list of moves.**  Afterwards the caller has left
the line, and the next one has its turn. -/
theorem runCycle_eq_moves {t : Tracker} (horderly : t.Orderly) {caller : Nat} {others : List Nat}
    (h : t.HasTurn caller others) (now : Nat) :
    (∃ as, (t.runCycle now).2.2 = t.moves as) ∧
      t.turns.callers = caller :: (t.runCycle now).2.2.turns.callers ∧
      ∀ next rest, others = next :: rest → (t.runCycle now).2.2.HasTurn next rest := by
  let due := now + t.directory.delay
  let begun := t.move (.begin caller)
  have hbegun : begun = { t with turns := t.turns.begin t.board.trackedNames } := by
    simp only [begun, move, h.current, if_true]
  have hturn : begun.turns.current? =
      some { owner := .caller caller, seen? := some t.board.trackedNames } := by
    simp only [hbegun, Turns.begin, h.current, Option.map_some]
  -- the wait for the directory
  obtain ⟨waited, hwaited, hwait⟩ :
      ∃ waited, waited = (if t.directory.delay = 0 then begun else begun.reach now due) ∧
        begun.RunsTo waited := by
    by_cases hdelay : t.directory.delay = 0
    · exact ⟨begun, (if_pos hdelay).symm, .refl begun⟩
    · exact ⟨_, (if_neg hdelay).symm, runsTo_of_reach begun now due⟩
  obtain ⟨hturn', hwaiting⟩ := hwait.caller hturn
  have hconclude : (waited.concludeCycle due t.board.trackedNames).2 =
      waited.move (.conclude due caller) := by
    simp only [move, hturn', if_true]
  have hrun : (t.runCycle now).2.2 = (waited.move (.conclude due caller)).runDry due := by
    rw [← hconclude]
    simp only [runCycle, hwaited, hbegun, due]
  have hpassed : (waited.move (.conclude due caller)).turns = waited.turns.pass := by
    obtain ⟨_, hframe⟩ := concludeCycle_frame waited due t.board.trackedNames
    rw [← hconclude, hframe]
  have hdry := runsTo_runDry (waited.move (.conclude due caller)) due
  have hbegun' : begun.Orderly := horderly.move (.begin caller)
  have hwaited' : waited.Orderly := hwait.orderly hbegun'
  rw [hrun]
  refine ⟨?_, ?_, ?_⟩
  · obtain ⟨as, rfl⟩ := hwait.eq_moves
    obtain ⟨as', has'⟩ := hdry.eq_moves
    exact ⟨.begin caller :: as ++ .conclude due caller :: as', by rw [has', moves_append]; rfl⟩
  · rw [hdry.callers_eq (hwaited'.move _), hpassed, ← Turns.callers_pass hturn',
      hwait.callers_eq hbegun', hbegun, Turns.callers_begin]
  · rintro next rest rfl
    refine hdry.hasTurn (hasTurn_of_pass (h.waiting.trans ?_) hpassed)
    rw [hbegun] at hwaiting
    exact hwaiting

/-! ### Between calls -/

/-- **Between calls** nobody is ready, and no caller is in line. -/
structure Quiet (t : Tracker) : Prop where
  ready : t.ready = []
  callers : t.turns.callers = []

/-- A cycle that a caller has to wait for ends when a timer fires. -/
theorem lookupDue?_of_mem {t : Tracker} {due : Nat} (h : (due, .refresher) ∈ t.timers) :
    ∃ due', t.lookupDue? = some due' ∧ (due', .refresher) ∈ t.timers := by
  have hsome : (t.timers.find? (·.2 == .refresher)).isSome = true :=
    List.find?_isSome.2 ⟨_, h, by simp⟩
  obtain ⟨⟨due', task⟩, hfind⟩ := Option.isSome_iff_exists.1 hsome
  have htask : task = .refresher := by simpa using List.find?_some hfind
  subst htask
  exact ⟨due', by rw [lookupDue?, hfind]; rfl, List.mem_of_find?_eq_some hfind⟩

namespace Quiet

variable {t : Tracker}

/-- **The turn is free, or the periodic cycle waits for the directory.** -/
theorem turns_cases (h : t.Quiet) (horderly : t.Orderly) (htended : t.Tended) :
    t.turns = .free ∨ ∃ seen due,
      t.turns = { current? := some { owner := .periodic, seen? := some seen } } ∧
        (due, .refresher) ∈ t.timers := by
  cases hcurrent : t.turns.current? with
  | none =>
      exact .inl (Turns.eq_of_waiting hcurrent (horderly.turns.free hcurrent))
  | some turn =>
      obtain ⟨owner, seen?⟩ := turn
      have hline : t.turns.line = owner :: t.turns.waiting := by rw [Turns.line, hcurrent]
      have hall : ∀ who ∈ t.turns.line, who = .periodic := fun _ =>
        Turns.eq_periodic_of_callers h.callers
      rw [hline] at hall
      obtain rfl := hall owner List.mem_cons_self
      have hheld : t.turns.isHeldBy .periodic = true := Turns.isHeldBy_iff.2 ⟨seen?, hcurrent⟩
      have hwaits := horderly.turns.not_mem_waiting hheld
      have hnobody : t.turns.waiting = [] := by
        refine List.eq_nil_iff_forall_not_mem.2 fun who hwho => hwaits ?_
        rwa [hall who (List.mem_cons_of_mem _ hwho)] at hwho
      have hturns := Turns.eq_of_waiting hcurrent hnobody
      cases seen? with
      | none =>
          have hawake := htended.awake hcurrent
          rw [h.ready] at hawake
          cases hawake
      | some seen =>
          rcases horderly.refresher_scheduled (htended.running hheld) with hmem | ⟨hmem, -⟩
          · rcases mem_scheduled_iff.1 hmem with hready | ⟨due, hasleep⟩
            · rw [h.ready] at hready
              cases hready
            · exact .inr ⟨seen, due, hturns, hasleep⟩
          · exact absurd hmem hwaits

/-- Who asks between calls is next, and those who ask then come after it. -/
theorem nears_ask (h : t.Quiet) (horderly : t.Orderly) (htended : t.Tended) (caller : Nat) :
    (t.askTurn (.caller caller)).Nears t.lookupDue? caller [] ∧
      ∀ other, ((t.askTurn (.caller caller)).askTurn (.caller other)).Nears t.lookupDue? caller
        [other] := by
  rcases h.turns_cases horderly htended with hfree | ⟨seen, due, hperiodic, hasleep⟩
  · have hfirst : (t.askTurn (.caller caller)).turns =
        { current? := some { owner := .caller caller } } := by
      rw [askTurn, hfree]
      rfl
    have hsecond : ∀ other, ((t.askTurn (.caller caller)).askTurn (.caller other)).turns =
        { current? := some { owner := .caller caller }, waiting := [.caller other] } := by
      intro other
      rw [askTurn, hfirst]
      rfl
    refine ⟨.turn ⟨congrArg Turns.current? hfirst, List.nil_prefix⟩,
      fun other => .turn ⟨congrArg Turns.current? (hsecond other), ?_⟩⟩
    rw [hsecond]
    exact List.prefix_refl _
  · obtain ⟨due', hdue', hasleep'⟩ := lookupDue?_of_mem hasleep
    have hfirst : (t.askTurn (.caller caller)).turns =
        { current? := some { owner := .periodic, seen? := some seen },
          waiting := [.caller caller] } := by
      rw [askTurn, hperiodic]
      rfl
    have hsecond : ∀ other, ((t.askTurn (.caller caller)).askTurn (.caller other)).turns =
        { current? := some { owner := .periodic, seen? := some seen },
          waiting := [.caller caller, .caller other] } := by
      intro other
      rw [askTurn, hfirst]
      rfl
    refine ⟨.next (congrArg Turns.current? hfirst) ?_ (.inr ⟨due', hdue', hasleep'⟩),
      fun other => .next (congrArg Turns.current? (hsecond other)) ?_
        (.inr ⟨due', hdue', hasleep'⟩)⟩
    · rw [hfirst]
      exact List.prefix_refl _
    · rw [hsecond]
      exact List.prefix_refl _

theorem callers_askTurn (h : t.Quiet) (horderly : t.Orderly) (caller : Nat) :
    (t.askTurn (.caller caller)).turns.callers = [caller] := by
  rw [askTurn, Turns.callers_ask horderly.turns.free, h.callers]
  rfl

end Quiet

/-- **Moves lead from one tracker to another,** after which nobody is ready and no caller is in
line. -/
def Settles (t t' : Tracker) : Prop :=
  (∃ as, t' = t.moves as) ∧ t'.Quiet

theorem Settles.of_moves {t t' : Tracker} {as : List Move} (h : (t.moves as).Settles t') :
    t.Settles t' := by
  obtain ⟨⟨as', rfl⟩, hquiet⟩ := h
  exact ⟨⟨as ++ as', (moves_append t as as').symm⟩, hquiet⟩

theorem Settles.of_move {t t' : Tracker} {a : Move} (h : (t.move a).Settles t') : t.Settles t' :=
  of_moves (show (t.moves [a]).Settles t' from h)

theorem Settles.of_runsTo {t u t' : Tracker} (h : u.Settles t') (hruns : t.RunsTo u) :
    t.Settles t' := by
  obtain ⟨as, rfl⟩ := hruns.eq_moves
  exact h.of_moves

/-! ### Cycles on demand -/

theorem isServing_of_not_stopped {t : Tracker} (h : ¬ t.isStopped = true)
    (hpresent : t.phase ≠ .dropped) : t.isServing = true := by
  unfold isStopped at h
  unfold isServing
  cases hphase : t.phase <;> simp_all

section Alone

variable {t : Tracker} {caller : Nat} (horderly : t.Orderly) (h : t.turns.callers = [caller])

include horderly h

/-- The cycle of the only caller in line. -/
theorem settles_runCycle (hturn : t.HasTurn caller []) (now : Nat) :
    t.Settles (t.runCycle now).2.2 := by
  obtain ⟨hmoves, hcallers, -⟩ := runCycle_eq_moves horderly hturn now
  rw [h] at hcallers
  exact ⟨hmoves, ready_runDry _ _, (List.cons.inj hcallers).2.symm⟩

/-- **A caller that gives up** while tasks and timers move leaves nothing behind. -/
theorem settles_giveUp {u : Tracker} (hruns : t.RunsTo u) (now : Nat) :
    t.Settles ((u.leaveTurn (.caller caller)).runDry now) := by
  have hdry := runsTo_runDry (u.leaveTurn (.caller caller)) now
  have hleft : (u.leaveTurn (.caller caller)).Settles
      ((u.leaveTurn (.caller caller)).runDry now) := by
    refine ⟨hdry.eq_moves, ready_runDry _ now, ?_⟩
    rw [hdry.callers_eq ((hruns.orderly horderly).leaveTurn caller), turns_leaveTurn]
    exact Turns.callers_leave ((hruns.callers_eq horderly).trans h)
  exact (Settles.of_move (a := .leave caller) hleft).of_runsTo hruns

end Alone

section OnDemand

variable {t : Tracker} (h : t.Quiet) (horderly : t.Orderly) (htended : t.Tended)
  (hpresent : t.phase ≠ .dropped)

include h horderly htended hpresent

/-- **A cycle on demand is a list of moves,** also when it has to wait for the periodic one. -/
theorem settles_refresh (now : Nat) : t.Settles (t.refresh now).2.2 := by
  by_cases hstopped : t.isStopped = true
  · rw [refresh, if_pos hstopped]
    exact ⟨⟨[], rfl⟩, h⟩
  · rw [refresh, if_neg hstopped]
    have hask : t.move (.ask 0) = t.askTurn (.caller 0) :=
      if_pos (isServing_of_not_stopped hstopped hpresent)
    have hasked := horderly.askTurn 0
    obtain ⟨hwait, hturn⟩ := (h.nears_ask horderly htended 0).1.awaitTurn now
    have hcallers := (hwait.callers_eq hasked).trans (h.callers_askTurn horderly 0)
    refine Settles.of_move (a := .ask 0) ?_
    rw [hask]
    exact (settles_runCycle (hwait.orderly hasked) hcallers hturn _).of_runsTo hwait

/-- **So is one with a time limit,** whether the caller gives up or not. -/
theorem settles_refreshWithin (now limit : Nat) : t.Settles (t.refreshWithin now limit).2.2 := by
  by_cases hstopped : t.isStopped = true
  · rw [refreshWithin, if_pos hstopped]
    exact ⟨⟨[], rfl⟩, h⟩
  · rw [refreshWithin, if_neg hstopped]
    have hask : t.move (.ask 0) = t.askTurn (.caller 0) :=
      if_pos (isServing_of_not_stopped hstopped hpresent)
    have hasked := horderly.askTurn 0
    obtain ⟨hwait, hturn⟩ := (h.nears_ask horderly htended 0).1.awaitTurn now
    have hcallers := h.callers_askTurn horderly 0
    have hcallers' := (hwait.callers_eq hasked).trans hcallers
    -- the wait until the limit
    have hlimit : ∀ (u : Tracker) (now' : Nat),
        u.RunsTo (if now' < now + limit then u.reach now' (now + limit) else u) := by
      intro u now'
      split
      · exact runsTo_of_reach u now' _
      · exact .refl u
    refine Settles.of_move (a := .ask 0) ?_
    rw [hask]
    dsimp only
    split
    · exact settles_giveUp hasked hcallers (hlimit _ now) _
    · split
      · -- the cycle has begun, but the directory takes too long
        refine Settles.of_runsTo ?_ hwait
        generalize (t.askTurn (.caller 0)).awaitTurn now (.caller 0) = awaited at *
        have hbegin : awaited.2.move (.begin 0) =
            { awaited.2 with turns := awaited.2.turns.begin awaited.2.board.trackedNames } := by
          simp only [move, hturn.current, if_true]
        refine Settles.of_move (a := .begin 0) ?_
        have hbegun := (hwait.orderly hasked).move (.begin 0)
        rw [hbegin] at hbegun ⊢
        exact settles_giveUp hbegun ((Turns.callers_begin _ _).trans hcallers') (hlimit _ _) _
      · exact (settles_runCycle (hwait.orderly hasked) hcallers' hturn _).of_runsTo hwait

/-- **And so are two that are asked for at the same time.** -/
theorem settles_refreshBoth (now : Nat) : t.Settles (t.refreshBoth now).2.2.2 := by
  by_cases hstopped : t.isStopped = true
  · rw [refreshBoth, if_pos hstopped]
    exact ⟨⟨[], rfl⟩, h⟩
  · rw [refreshBoth, if_neg hstopped]
    have hserving := isServing_of_not_stopped hstopped hpresent
    have hask : t.move (.ask 0) = t.askTurn (.caller 0) := if_pos hserving
    have hask' : (t.askTurn (.caller 0)).move (.ask 1) =
        (t.askTurn (.caller 0)).askTurn (.caller 1) := if_pos hserving
    have hasked := horderly.askTurn 0
    have hasked' := hasked.askTurn 1
    have hcallers : ((t.askTurn (.caller 0)).askTurn (.caller 1)).turns.callers = [0, 1] := by
      rw [askTurn, Turns.callers_ask hasked.turns.free, h.callers_askTurn horderly]
      rfl
    -- the first caller has its turn, and the second one after it
    obtain ⟨hwait, hturn⟩ := ((h.nears_ask horderly htended 0).2 1).awaitTurn now
    have hcallers' := (hwait.callers_eq hasked').trans hcallers
    have hwaited := hwait.orderly hasked'
    refine Settles.of_move (a := .ask 0) (Settles.of_move (a := .ask 1) ?_)
    rw [hask, hask']
    refine Settles.of_runsTo ?_ hwait
    dsimp only
    generalize
      ((t.askTurn (.caller 0)).askTurn (.caller 1)).awaitTurn now (.caller 0) = awaited at *
    obtain ⟨⟨as, has⟩, hleft, hnext⟩ := runCycle_eq_moves hwaited hturn awaited.1
    have hsecond := hnext 1 [] rfl
    generalize awaited.2.runCycle awaited.1 = first at *
    rw [hcallers'] at hleft
    have hheld : first.2.2.turns.isHeldBy (.caller 1) = true :=
      Turns.isHeldBy_iff.2 ⟨none, hsecond.current⟩
    rw [awaitTurn, if_pos hheld]
    have hfirst := hwaited.moves as
    rw [← has] at hfirst
    have hrest := settles_runCycle hfirst (List.cons.inj hleft).2.symm hsecond first.1
    rw [has] at hrest ⊢
    exact hrest.of_moves

end OnDemand

/-! ### Sessions -/

/-- The move is a call from outside, but for what a caller does about its turn. -/
def Move.IsCall : Move → Prop
  | .perform .. | .fire _ | .ask _ | .begin _ | .conclude .. | .leave _ => False
  | _ => True

/-- Such a call leaves the turns alone, unless it takes all of them away. -/
theorem turns_of_isCall (t : Tracker) {a : Move} (h : a.IsCall) :
    (t.move a).turns = t.turns ∨ (t.move a).turns = .free := by
  cases a with
  | start now =>
      simp only [move, start]
      cases t.phase <;> exact .inl rfl
  | stop =>
      simp only [move, stop]
      cases t.phase with
      | idle => exact .inr rfl
      | running => exact .inr rfl
      | _ => exact .inl rfl
  | drop => exact .inr rfl
  | send messages =>
      obtain ⟨_, _, _, _, hsend⟩ := send_frame t messages
      exact .inl (by rw [move, hsend])
  | refreshDetached now =>
      simp only [move, refreshDetached]
      split
      · split
        · exact .inl rfl
        · split <;> exact .inl rfl
      · exact .inl rfl
  | takeResyncs =>
      simp only [move, takeResyncs]
      split <;> exact .inl rfl
  | loseWorker instrument => exact .inl rfl
  | changeDirectory directory => exact .inl rfl
  | takeResyncReader => exact .inl rfl
  | takeLog => exact .inl rfl
  | _ => exact h.elim

/-- **What can be done with a tracker from outside,** one after the other: calls after which the
tasks run dry, spans of time, and cycles on demand, for which nobody asks a tracker that is gone.  A
cycle whose new workers do not outlive it is among the calls, and is run while no other is on. -/
inductive Session (t₀ : Tracker) : Tracker → Prop
  | opened : Session t₀ t₀
  | call {t : Tracker} {a : Move} (since : Session t₀ t) (h : a.IsCall) (now : Nat) :
      Session t₀ ((t.move a).runDry now)
  | advance {t : Tracker} (since : Session t₀ t) (now span : Nat) :
      Session t₀ (t.advance now span)
  | refresh {t : Tracker} (since : Session t₀ t) (present : t.phase ≠ .dropped) (now : Nat) :
      Session t₀ (t.refresh now).2.2
  | refreshWithin {t : Tracker} (since : Session t₀ t) (present : t.phase ≠ .dropped)
      (now limit : Nat) : Session t₀ (t.refreshWithin now limit).2.2
  | refreshBoth {t : Tracker} (since : Session t₀ t) (present : t.phase ≠ .dropped) (now : Nat) :
      Session t₀ (t.refreshBoth now).2.2.2

/-- **Everything that can be done with a tracker is a list of moves,** and comes to rest: no task is
ready, and no caller is in line.  So whatever holds after every list of moves holds at each point of
every session. -/
theorem settles_of_session {config : Config} {directory : Directory} {t₀ t : Tracker}
    (h : new config directory = .ok t₀) (hsession : t₀.Session t) : t₀.Settles t := by
  induction hsession with
  | opened =>
      refine ⟨⟨[], rfl⟩, ?_⟩
      rw [eq_of_new h]
      exact ⟨rfl, rfl⟩
  | @call t a since ha now ih =>
      obtain ⟨⟨as, rfl⟩, hquiet⟩ := ih
      have hdry := runsTo_runDry ((t₀.moves as).move a) now
      have hcallers : ((t₀.moves as).move a).turns.callers = [] := by
        rcases turns_of_isCall (t₀.moves as) ha with hturns | hturns
        · rw [hturns, hquiet.callers]
        · rw [hturns]
          rfl
      refine Settles.of_moves (Settles.of_move (a := a) ⟨hdry.eq_moves, ready_runDry _ now, ?_⟩)
      rw [hdry.callers_eq ((orderly_of_moves h as).move a), hcallers]
  | advance since now span ih =>
      obtain ⟨⟨as, rfl⟩, hquiet⟩ := ih
      have hpassed := runsTo_advance (t₀.moves as) now span
      refine Settles.of_moves ⟨hpassed.eq_moves, ready_runDry _ _, ?_⟩
      rw [hpassed.callers_eq (orderly_of_moves h as), hquiet.callers]
  | refresh since present now ih =>
      obtain ⟨⟨as, rfl⟩, hquiet⟩ := ih
      exact (settles_refresh hquiet (orderly_of_moves h as) (tended_of_moves h as) present
        now).of_moves
  | refreshWithin since present now limit ih =>
      obtain ⟨⟨as, rfl⟩, hquiet⟩ := ih
      exact (settles_refreshWithin hquiet (orderly_of_moves h as) (tended_of_moves h as) present now
        limit).of_moves
  | refreshBoth since present now ih =>
      obtain ⟨⟨as, rfl⟩, hquiet⟩ := ih
      exact (settles_refreshBoth hquiet (orderly_of_moves h as) (tended_of_moves h as) present
        now).of_moves

end MarketDepth.Tracker
