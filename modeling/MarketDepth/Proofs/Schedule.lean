/-
**What the ready line and the clock do.**

While nothing happens outside, the first of the ready tasks acts, one after the other, and timers
fire when they are due.  This is one of the orders in which tasks and timers can move; so whatever
each of their moves keeps is kept while the tasks run dry, and while time passes.

Main definitions:

* `MarketDepth.Tracker.Move.IsInner` — the moves of tasks and timers;
* `MarketDepth.Tracker.RunsTo` — **only tasks and timers have moved.**

Main results:

* `MarketDepth.Tracker.RunsTo.keeps` — what each of these moves keeps is kept;
* `MarketDepth.Tracker.runsTo_runDry`, `MarketDepth.Tracker.runsTo_advance` — **running dry and
  letting time pass are lists of such moves**;
* `MarketDepth.Tracker.runsTo_reach` — when a time is reached, the timers fire last.
-/

import MarketDepth.Proofs.Moves

set_option relaxedAutoImplicit false
set_option autoImplicit false

namespace MarketDepth.Tracker

/-! ### Moves of tasks and timers -/

/-- The move is that of a task or of the timers. -/
def Move.IsInner : Move → Prop
  | .perform .. | .fire _ => True
  | _ => False

/-- **From one tracker to another only tasks and timers have moved.** -/
def RunsTo (t t' : Tracker) : Prop :=
  ∃ as : List Move, (∀ a ∈ as, a.IsInner) ∧ t' = t.moves as

namespace RunsTo

variable {t t' t'' : Tracker}

theorem refl (t : Tracker) : t.RunsTo t :=
  ⟨[], by simp, rfl⟩

theorem eq_moves (h : t.RunsTo t') : ∃ as, t' = t.moves as := by
  obtain ⟨as, -, h⟩ := h
  exact ⟨as, h⟩

theorem trans (h : t.RunsTo t') (h' : t'.RunsTo t'') : t.RunsTo t'' := by
  obtain ⟨as, has, rfl⟩ := h
  obtain ⟨as', has', rfl⟩ := h'
  exact ⟨as ++ as', fun a ha => (List.mem_append.1 ha).elim (has a) (has' a),
    (moves_append t as as').symm⟩

/-- **What each move of tasks and timers keeps is kept.** -/
theorem keeps (h : t.RunsTo t') {P : Tracker → Prop}
    (hkeep : ∀ (u : Tracker) (a : Move), a.IsInner → P u → P (u.move a)) (hP : P t) : P t' := by
  obtain ⟨as, has, rfl⟩ := h
  induction as generalizing t with
  | nil => exact hP
  | cons a as ih =>
      exact ih (hkeep t a (has a List.mem_cons_self) hP)
        fun a' ha' => has a' (List.mem_cons_of_mem a ha')

end RunsTo

theorem runsTo_move (t : Tracker) {a : Move} (h : a.IsInner) : t.RunsTo (t.move a) :=
  ⟨[a], by simpa using h, rfl⟩

/-! ### Running dry -/

/-- The first of the ready tasks is one of them. -/
theorem step?_eq_move {t t' : Tracker} {now : Nat} (h : t.step? now = some t') :
    ∃ task ∈ t.ready, t' = t.move (.perform now task) := by
  unfold step? at h
  cases hready : t.ready with
  | nil => rw [hready] at h; cases h
  | cons task ready =>
      rw [hready] at h
      cases h
      refine ⟨task, List.mem_cons_self, ?_⟩
      simp only [move, hready, List.mem_cons_self, if_true, List.erase_cons_head]

theorem runsTo_runDry (t : Tracker) (now : Nat) : t.RunsTo (t.runDry now) := by
  fun_induction runDry t now with
  | case1 t => exact .refl t
  | case2 t t' h ih =>
      obtain ⟨task, -, rfl⟩ := step?_eq_move h
      exact (runsTo_move t (a := .perform now task) trivial).trans ih

/-! ### Letting time pass -/

/-- The timers that are due at the time itself fire last. -/
theorem runsTo_reach (t : Tracker) (now target : Nat) :
    ∃ u, t.RunsTo u ∧ t.reach now target = u.fire target := by
  fun_induction reach t now target with
  | case1 t => exact ⟨t, .refl t, rfl⟩
  | case2 t now due hdue h later ih =>
      obtain ⟨u, hu, hreach⟩ := ih
      have hfire := runsTo_move t (a := .fire later) trivial
      exact ⟨u, (hfire.trans (runsTo_runDry _ later)).trans hu, hreach⟩
  | case3 t => exact ⟨t, .refl t, rfl⟩

theorem runsTo_of_reach (t : Tracker) (now target : Nat) : t.RunsTo (t.reach now target) := by
  obtain ⟨u, hu, hreach⟩ := runsTo_reach t now target
  rw [hreach]
  exact hu.trans (runsTo_move u (a := .fire target) trivial)

/-- Letting time pass is a list of such moves. -/
theorem runsTo_advance (t : Tracker) (now span : Nat) : t.RunsTo (t.advance now span) :=
  (runsTo_of_reach t now (now + span)).trans (runsTo_runDry _ (now + span))

end MarketDepth.Tracker
