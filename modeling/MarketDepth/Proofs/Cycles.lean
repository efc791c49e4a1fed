/-
**Refresh cycles of a tracker.**

A cycle notes what is live as it begins, waits for the directory, and converges the board on what
the directory found.  In between the other tasks go on.  Since cycles exclude each other, no
instrument comes to life while one is on; so what is live at its end was noted at its beginning, and
unless a worker has terminated the two are the same.

Main definitions:

* `MarketDepth.Board.Step.StartsNone` — steps that start no worker;
* `MarketDepth.Tracker.answer?`, `MarketDepth.Tracker.Ends` — **what a cycle comes to** with the
  move that ends it, be it the one that began it or a later one;
* `MarketDepth.Tracker.Notes` — **the invariant**: a cycle that is on has noted all that is live.

Main results:

* `MarketDepth.Tracker.ends_of_answer?` — what a move does that ends a cycle; any other starts no
  worker;
* `MarketDepth.Tracker.noted_move` — where a note comes from;
* `MarketDepth.Tracker.notes_moves` — the invariant holds in whatever order tasks act and whatever
  happens outside;
* `MarketDepth.Tracker.convergesTo_of_moves` — **a cycle of a tracker converges on the directory,
  whichever move ends it, and a cycle that fails changes nothing.**
-/

import MarketDepth.Proofs.Convergence
import MarketDepth.Proofs.Moves

set_option relaxedAutoImplicit false
set_option autoImplicit false

namespace MarketDepth

/-! ### Steps that start no worker -/

namespace Board

/-- The step is not that of a cycle. -/
def Step.StartsNone (s : Step) : Prop :=
  ∀ now live seen found, s ≠ .converge now live seen found

/-- Only a cycle brings an instrument to life. -/
theorem mem_trackedNames_of_take {b : Board} {s : Step} (h : s.StartsNone) {name : String}
    (hname : name ∈ (b.take s).trackedNames) : name ∈ b.trackedNames := by
  obtain ⟨r', hr', hlive⟩ := mem_trackedNames_iff.1 hname
  rcases find?_take_cases hr' with ⟨r, hr, hchange⟩ | ⟨now, live, seen, found, hs, -⟩
  · exact mem_trackedNames_iff.2 ⟨r, hr, hchange.live_of_live hlive⟩
  · exact absurd hs (h now live seen found)

theorem mem_trackedNames_of_takeAll {b : Board} {steps : List Step}
    (h : ∀ s ∈ steps, s.StartsNone) {name : String}
    (hname : name ∈ (b.takeAll steps).trackedNames) : name ∈ b.trackedNames := by
  induction steps generalizing b with
  | nil => exact hname
  | cons s steps ih =>
      refine mem_trackedNames_of_take (h s List.mem_cons_self) ?_
      exact ih (fun s' hs' => h s' (List.mem_cons_of_mem s hs')) hname

/-- Steps that only log leave all but the log as it is. -/
theorem exists_log_of_records (b : Board) {steps : List Step}
    (h : ∀ s ∈ steps, ∃ events, s = .record events) :
    ∃ log, b.takeAll steps = { b with log } := by
  induction steps generalizing b with
  | nil => exact ⟨b.log, rfl⟩
  | cons s steps ih =>
      obtain ⟨events, rfl⟩ := h s List.mem_cons_self
      obtain ⟨log, hrest⟩ := ih (b.record events) fun s' hs' => h s' (List.mem_cons_of_mem _ hs')
      exact ⟨log, hrest⟩

end Board

namespace Tracker

theorem startsNone_of_mem_faultSteps {task : Task} {config : Config} {fault? : Option Fault}
    {s : Board.Step} (h : s ∈ task.faultSteps config fault?) : s.StartsNone := by
  obtain ⟨fault, -, rfl⟩ := List.mem_map.1 h
  exact fun _ _ _ _ h => by cases h

/-- Only the refresher starts workers. -/
theorem startsNone_of_mem_stepsOfTask {t : Tracker} {now : Nat} {task : Task}
    (htask : task ≠ .refresher) {s : Board.Step} (h : s ∈ t.stepsOfTask now task) :
    s.StartsNone := by
  have hcons : ∀ first : Board.Step, first.StartsNone → ∀ config fault?,
      s ∈ first :: task.faultSteps config fault? → s.StartsNone := by
    intro first hfirst config fault? hs
    rcases List.mem_cons.1 hs with rfl | hs
    · exact hfirst
    · exact startsNone_of_mem_faultSteps hs
  cases task with
  | tradeEmitter =>
      simp only [stepsOfTask] at h
      split at h
      · cases h
      · exact hcons _ (fun _ _ _ _ h => by cases h) _ _ h
  | diffRouter =>
      simp only [stepsOfTask] at h
      split at h
      · cases h
      · exact hcons _ (fun _ _ _ _ h => by cases h) _ _ h
  | snapshotRouter =>
      simp only [stepsOfTask] at h
      split at h
      · cases h
      · exact hcons _ (fun _ _ _ _ h => by cases h) _ _ h
  | refresher => exact absurd rfl htask
  | worker instrument serial =>
      simp only [stepsOfTask] at h
      split at h
      · cases h
      · split at h
        · exact hcons _ (fun _ _ _ _ h => by cases h) _ _ h
        · cases h

/-! ### Moves that end a cycle -/

/-- What a cycle comes to that the refresher begins now, if it does not have to wait. -/
def answerAtOnce? (t : Tracker) (now : Nat) : Option RefreshAnswer :=
  if t.directory.delay = 0 then some (.ofResult (t.concludeCycle now t.board.trackedNames).1)
  else none

/-- **What the cycle comes to that a move ends,** if it ends one. -/
def answer? (t : Tracker) : Move → Option RefreshAnswer
  | .perform now task =>
      if task = .refresher ∧ task ∈ t.ready then
        match t.turns.current? with
        | some { owner := .periodic, seen? := some seen } =>
            some (.ofResult (t.concludeCycle now seen).1)
        | some { owner := .periodic, seen? := none } => t.answerAtOnce? now
        | some { owner := .caller _, seen? := _ } => none
        | none => t.answerAtOnce? now
      else none
  | .conclude now caller =>
      match t.turns.current? with
      | some { owner, seen? := some seen } =>
          if owner = .caller caller then some (.ofResult (t.concludeCycle now seen).1) else none
      | _ => none
  | .refreshDetached now =>
      if t.isServing ∧ t.turns.current? = none then some (t.refreshDetached now).1 else none
  | _ => none

/-- When the cycle ends that a move may end, and whether its new workers outlive it. -/
def Move.ending? : Move → Option (Nat × Bool)
  | .perform now _ | .conclude now _ => some (now, true)
  | .refreshDetached now => some (now, false)
  | _ => none

/-- **A move ends a cycle that has noted `seen`:** it converges the board on what is looked up now,
and does nothing else to it; or the look-up fails, and it only logs this. -/
inductive Ends (t : Tracker) (a : Move) (now : Nat) (live : Bool) (seen : List String) :
    RefreshAnswer → Prop
  | done {found : Catalog} (looked : t.directory.lookup.1 = .ok found)
      (steps : t.stepsOf a = [.converge now live seen found]) :
      Ends t a now live seen (.done (t.board.converge now live seen found).1)
  | failed {fault : Fault} (looked : t.directory.lookup.1 = .error fault)
      (steps : ∀ s ∈ t.stepsOf a, ∃ events, s = .record events) :
      Ends t a now live seen (.failed fault)

/-- The turn that is on has noted `seen`, or `seen` is what is live now. -/
def HasNoted (t : Tracker) (seen : List String) : Prop :=
  (∃ owner, t.turns.current? = some { owner, seen? := some seen }) ∨ seen = t.board.trackedNames

theorem ends_of_steps {t : Tracker} {a : Move} {now : Nat} {seen : List String}
    (done : ∀ found, t.directory.lookup.1 = .ok found →
      t.stepsOf a = [.converge now true seen found])
    (failed : ∀ fault, t.directory.lookup.1 = .error fault →
      ∀ s ∈ t.stepsOf a, ∃ events, s = .record events) :
    t.Ends a now true seen (.ofResult (t.concludeCycle now seen).1) := by
  rcases t.directory.lookup_cases with hlookup | ⟨fault, after, hlookup, -⟩
  · have hlooked := congrArg Prod.fst hlookup
    have hresult : (t.concludeCycle now seen).1 =
        .ok (t.board.converge now true seen t.directory.contents).1 := by
      simp only [concludeCycle, hlookup]
    rw [hresult]
    exact .done hlooked (done _ hlooked)
  · have hlooked := congrArg Prod.fst hlookup
    have hresult : (t.concludeCycle now seen).1 = .error fault := by
      simp only [concludeCycle, hlookup]
    rw [hresult]
    exact .failed hlooked (failed _ hlooked)

/-- The refresher ends a cycle when it does the steps of the end of one. -/
theorem ends_of_finishSteps {t : Tracker} {a : Move} {now : Nat} {seen : List String}
    (h : t.stepsOf a = t.finishSteps now seen) :
    t.Ends a now true seen (.ofResult (t.concludeCycle now seen).1) := by
  refine ends_of_steps ?_ ?_
  · intro found hlooked
    rw [h, finishSteps, hlooked]
  · intro fault hlooked s hs
    rw [h, finishSteps, hlooked] at hs
    exact ⟨_, List.mem_singleton.1 hs⟩

theorem ends_of_concludeSteps {t : Tracker} {a : Move} {now : Nat} {seen : List String}
    (h : t.stepsOf a = t.concludeSteps now true seen) :
    t.Ends a now true seen (.ofResult (t.concludeCycle now seen).1) := by
  refine ends_of_steps ?_ ?_
  · intro found hlooked
    rw [h, concludeSteps, hlooked]
  · intro fault hlooked s hs
    rw [h, concludeSteps, hlooked] at hs
    cases hs

theorem ends_refreshDetached {t : Tracker} {now : Nat}
    (h : t.isServing = true ∧ t.turns.current? = none) :
    t.Ends (.refreshDetached now) now false t.board.trackedNames (t.refreshDetached now).1 := by
  have hsteps : t.stepsOf (.refreshDetached now) =
      t.concludeSteps now false t.board.trackedNames := if_pos h
  have hserving : ¬ t.isStopped = true := by simp [isStopped_of_isServing h.1]
  rcases t.directory.lookup_cases with hlookup | ⟨fault, after, hlookup, -⟩
  · have hanswer : (t.refreshDetached now).1 =
        .done (t.board.converge now false t.board.trackedNames t.directory.contents).1 := by
      rw [refreshDetached, if_neg hserving, hlookup]
    rw [hanswer]
    refine .done (congrArg Prod.fst hlookup) ?_
    rw [hsteps, concludeSteps, hlookup]
  · have hanswer : (t.refreshDetached now).1 = .failed fault := by
      rw [refreshDetached, if_neg hserving, hlookup]
    rw [hanswer]
    refine .failed (congrArg Prod.fst hlookup) ?_
    rw [hsteps, concludeSteps, hlookup]
    exact fun s hs => absurd hs List.not_mem_nil

/-- The move ends a cycle that comes to this; or, with no answer, it starts no worker. -/
def EndsAs (t : Tracker) (a : Move) : Option RefreshAnswer → Prop
  | none => ∀ s ∈ t.stepsOf a, s.StartsNone
  | some answer => ∃ now live seen, a.ending? = some (now, live) ∧ t.HasNoted seen ∧
      t.Ends a now live seen answer

theorem endsAs_none_of_nil {t : Tracker} {a : Move} (h : t.stepsOf a = []) : t.EndsAs a none := by
  intro s hs
  rw [h] at hs
  cases hs

/-- A cycle that begins now ends now if the directory does not keep it waiting. -/
theorem endsAs_answerAtOnce {t : Tracker} {a : Move} {now : Nat}
    (ha : a.ending? = some (now, true)) (h : t.stepsOf a = t.beginSteps now) :
    t.EndsAs a (t.answerAtOnce? now) := by
  unfold answerAtOnce?
  by_cases hdelay : t.directory.delay = 0
  · rw [beginSteps, if_pos hdelay] at h
    rw [if_pos hdelay]
    exact ⟨_, _, _, ha, .inr rfl, ends_of_finishSteps h⟩
  · rw [beginSteps, if_neg hdelay] at h
    rw [if_neg hdelay]
    exact endsAs_none_of_nil h

theorem endsAs_perform (t : Tracker) (now : Nat) (task : Task) :
    t.EndsAs (.perform now task) (t.answer? (.perform now task)) := by
  by_cases hready : task ∈ t.ready
  · have hsteps : t.stepsOf (.perform now task) = t.stepsOfTask now task := if_pos hready
    by_cases htask : task = .refresher
    · subst htask
      simp only [answer?, hready, and_self, if_true]
      simp only [stepsOfTask] at hsteps
      rcases hcurrent : t.turns.current? with _ | ⟨_ | caller, _ | seen⟩
      · rw [hcurrent] at hsteps
        exact endsAs_answerAtOnce rfl hsteps
      · rw [hcurrent] at hsteps
        exact endsAs_answerAtOnce rfl hsteps
      · rw [hcurrent] at hsteps
        exact ⟨_, _, _, rfl, .inl ⟨_, hcurrent⟩, ends_of_finishSteps hsteps⟩
      · rw [hcurrent] at hsteps
        exact endsAs_none_of_nil hsteps
      · rw [hcurrent] at hsteps
        exact endsAs_none_of_nil hsteps
    · rw [answer?, if_neg fun h => htask h.1]
      intro s hs
      rw [hsteps] at hs
      exact startsNone_of_mem_stepsOfTask htask hs
  · rw [answer?, if_neg fun h => hready h.2]
    exact endsAs_none_of_nil (if_neg hready)

/-- **A move ends the cycle that it is said to end,** or it starts no worker. -/
theorem endsAs_answer? (t : Tracker) (a : Move) : t.EndsAs a (t.answer? a) := by
  cases a with
  | perform now task => exact endsAs_perform t now task
  | conclude now caller =>
      rcases hcurrent : t.turns.current? with _ | ⟨owner, _ | seen⟩
      · simp only [answer?, hcurrent]
        exact endsAs_none_of_nil (by simp only [stepsOf, hcurrent])
      · simp only [answer?, hcurrent]
        exact endsAs_none_of_nil (by simp only [stepsOf, hcurrent])
      · by_cases hmine : owner = .caller caller
        · simp only [answer?, hcurrent, if_pos hmine]
          refine ⟨now, true, seen, rfl, .inl ⟨owner, hcurrent⟩, ends_of_concludeSteps ?_⟩
          simp only [stepsOf, hcurrent, if_pos hmine]
        · simp only [answer?, hcurrent, if_neg hmine]
          exact endsAs_none_of_nil (by simp only [stepsOf, hcurrent, if_neg hmine])
  | refreshDetached now =>
      by_cases hfree : t.isServing = true ∧ t.turns.current? = none
      · rw [answer?, if_pos hfree]
        exact ⟨now, false, _, rfl, .inr rfl, ends_refreshDetached hfree⟩
      · rw [answer?, if_neg hfree]
        exact endsAs_none_of_nil (if_neg hfree)
  | _ =>
      -- no other move has a step that is a cycle
      intro s hs now live seen found
      grind [stepsOf]

theorem ends_of_answer? {t : Tracker} {a : Move} {answer : RefreshAnswer}
    (h : t.answer? a = some answer) :
    ∃ now live seen, a.ending? = some (now, live) ∧ t.HasNoted seen ∧
      t.Ends a now live seen answer := by
  have hends := t.endsAs_answer? a
  rwa [h] at hends

/-- A move that ends no cycle starts no worker. -/
theorem startsNone_of_answer?_eq_none {t : Tracker} {a : Move} (h : t.answer? a = none)
    {s : Board.Step} (hs : s ∈ t.stepsOf a) : s.StartsNone := by
  have hends := t.endsAs_answer? a
  rw [h] at hends
  exact hends s hs

theorem ends_or_startsNone (t : Tracker) (a : Move) :
    (t.answer? a = none ∧ ∀ s ∈ t.stepsOf a, s.StartsNone) ∨
      ∃ answer now live seen, t.answer? a = some answer ∧ t.HasNoted seen ∧
        t.Ends a now live seen answer := by
  cases hanswer : t.answer? a with
  | none => exact .inl ⟨rfl, fun s hs => startsNone_of_answer?_eq_none hanswer hs⟩
  | some answer =>
      obtain ⟨now, live, seen, -, hnoted, hends⟩ := ends_of_answer? hanswer
      exact .inr ⟨answer, now, live, seen, rfl, hnoted, hends⟩

/-- The look-up of the cycle is the only one in the move that ends it. -/
theorem directory_move_of_answer? {t : Tracker} {a : Move} {answer : RefreshAnswer}
    (h : t.answer? a = some answer) : (t.move a).directory = t.directory.lookup.2 := by
  cases a with
  | perform now task =>
      simp only [answer?] at h
      split at h
      case isFalse => cases h
      case isTrue hmine =>
        obtain ⟨rfl, hready⟩ := hmine
        -- a cycle that begins now has an answer now if it does not have to wait
        have hbegin : t.answerAtOnce? now = some answer → ∀ rest : Tracker,
            rest.directory = t.directory →
            (rest.beginPeriodic now).directory = t.directory.lookup.2 := by
          intro hanswer rest hrest
          obtain ⟨_, _, hframe⟩ := beginPeriodic_frame rest now
          unfold answerAtOnce? at hanswer
          split at hanswer
          case isTrue hdelay => rw [hframe, hrest, if_pos hdelay]
          case isFalse => cases hanswer
        simp only [move, if_pos hready, perform, refreshStep]
        rcases hcurrent : t.turns.current? with _ | ⟨_ | caller, _ | seen⟩
        · rw [hcurrent] at h
          exact hbegin h _ rfl
        · rw [hcurrent] at h
          exact hbegin h _ rfl
        · obtain ⟨_, _, hfinish⟩ :=
            finishPeriodic_frame { t with ready := t.ready.erase .refresher } now seen
          exact congrArg (·.directory) hfinish
        · rw [hcurrent] at h
          cases h
        · rw [hcurrent] at h
          cases h
  | conclude now caller =>
      simp only [answer?] at h
      split at h
      case h_1 owner seen hcurrent =>
        split at h
        case isTrue hmine =>
          obtain ⟨_, hconclude⟩ := concludeCycle_frame t now seen
          simp only [move, hcurrent, if_pos hmine, hconclude]
        case isFalse => cases h
      case h_2 => cases h
  | refreshDetached now =>
      simp only [answer?] at h
      split at h
      case isTrue hfree =>
        simp only [move, if_pos hfree, refreshDetached, isStopped_of_isServing hfree.1]
        rcases t.directory.lookup_cases with hlookup | ⟨fault, after, hlookup, -⟩
        · simp [hlookup]
        · simp [hlookup]
      case isFalse => cases h
  | _ => cases h

/-- **What a move does to the board that ends a cycle:** nothing but logging if the look-up has
failed, and otherwise what the cycle comes to with what the directory has now. -/
theorem Ends.board_cases {t : Tracker} {a : Move} {now : Nat} {live : Bool} {seen : List String}
    {answer : RefreshAnswer} (h : t.Ends a now live seen answer) :
    (∃ fault log, answer = .failed fault ∧ t.directory.lookup.1 = .error fault ∧
      (t.move a).board = { t.board with log }) ∨
    ∃ outcome, answer = .done outcome ∧ t.directory.lookup.1 = .ok t.directory.contents ∧
      t.board.converge now live seen t.directory.contents = (outcome, (t.move a).board) := by
  cases h with
  | @failed fault looked steps =>
      obtain ⟨log, hlog⟩ := Board.exists_log_of_records t.board steps
      exact .inl ⟨fault, log, rfl, looked, by rw [board_move, hlog]⟩
  | @done found looked steps =>
      obtain rfl := Directory.eq_contents_of_lookup looked
      refine .inr ⟨_, rfl, looked, ?_⟩
      rw [board_move, steps]
      rfl

/-- **A move that converges the board does nothing else to it,** and ends a cycle. -/
theorem ends_of_mem {t : Tracker} {a : Move} {now : Nat} {live : Bool} {seen : List String}
    {found : Catalog} (h : .converge now live seen found ∈ t.stepsOf a) :
    t.stepsOf a = [.converge now live seen found] ∧ t.directory.lookup.1 = .ok found ∧
      t.HasNoted seen := by
  rcases ends_or_startsNone t a with ⟨-, hsteps⟩ | ⟨_, _, _, _, -, hnoted, hends⟩
  · exact absurd rfl (hsteps _ h now live seen found)
  · cases hends with
    | done looked steps =>
        rw [steps] at h ⊢
        obtain ⟨rfl, rfl, rfl, rfl⟩ := Board.Step.converge.inj (List.mem_singleton.1 h)
        exact ⟨rfl, looked, hnoted⟩
    | failed looked steps =>
        obtain ⟨_, hrecord⟩ := steps _ h
        cases hrecord

/-- **Each cycle of a trace is ended by a move of its own,** and applies what the directory has
then. -/
theorem exists_of_cycle_in_trace {t : Tracker} {as : List Move} {before since : List Board.Step}
    {now : Nat} {live : Bool} {seen : List String} {found : Catalog}
    (h : t.trace as = before ++ .converge now live seen found :: since) :
    ∃ earlier a later, as = earlier ++ a :: later ∧ before = t.trace earlier ∧
      since = ((t.moves earlier).move a).trace later ∧
      (t.moves earlier).stepsOf a = [.converge now live seen found] ∧
      found = (t.moves earlier).directory.contents := by
  obtain ⟨earlier, a, later, rfl, first, rest, hsteps, rfl, rfl⟩ := exists_of_trace_eq h
  obtain ⟨hone, hlookup, -⟩ := ends_of_mem
    (hsteps ▸ List.mem_append_right first List.mem_cons_self)
  have hfound := Directory.eq_contents_of_lookup hlookup
  -- the cycle is all that the move does
  rw [hone] at hsteps
  rcases List.singleton_eq_append_iff.1 hsteps with ⟨rfl, hrest⟩ | ⟨-, hrest⟩
  · obtain ⟨-, rfl⟩ := List.cons.inj hrest
    exact ⟨earlier, a, later, rfl, List.append_nil _, rfl, hone, hfound⟩
  · cases hrest

/-! ### What a cycle has noted -/

/-- A turn that was just passed on has noted nothing yet. -/
theorem current?_pass_ne (turns : Turns) (owner : Requester) (seen : List String) :
    turns.pass.current? ≠ some { owner, seen? := some seen } := by
  unfold Turns.pass
  split <;> simp

theorem current?_begin {turns : Turns} {noted seen : List String} {owner : Requester}
    (h : (turns.begin noted).current? = some { owner, seen? := some seen }) : seen = noted := by
  obtain ⟨turn, -, hnote⟩ := Option.map_eq_some_iff.1 h
  exact (Option.some.inj (congrArg Turn.seen? hnote)).symm

/-- A refresher that begins a cycle and has to wait has noted what is live. -/
theorem noted_beginPeriodic {t : Tracker} {now : Nat} {owner : Requester} {seen : List String}
    (h : (t.beginPeriodic now).turns.current? = some { owner, seen? := some seen }) :
    t.directory.delay ≠ 0 ∧ seen = t.board.trackedNames := by
  rw [turns_beginPeriodic] at h
  by_cases hdelay : t.directory.delay = 0
  · rw [if_pos hdelay] at h
    exact absurd h (current?_pass_ne _ _ _)
  · rw [if_neg hdelay] at h
    exact ⟨hdelay, current?_begin h⟩

/-- Where a note comes from when a task has acted: only the refresher begins and ends cycles. -/
theorem noted_perform {t : Tracker} {now : Nat} {task : Task} {owner : Requester}
    {seen : List String}
    (h : (t.move (.perform now task)).turns.current? = some { owner, seen? := some seen }) :
    t.answer? (.perform now task) = none ∧
      (t.turns.current? = some { owner, seen? := some seen } ∨
        seen = t.board.trackedNames ∧ t.stepsOf (.perform now task) = []) := by
  by_cases hready : task ∈ t.ready
  · simp only [move, if_pos hready] at h
    by_cases htask : task = .refresher
    · subst htask
      simp only [answer?, stepsOf, stepsOfTask, hready, and_self, if_true]
      simp only [perform, refreshStep] at h
      rcases hcurrent : t.turns.current? with _ | ⟨_ | caller, _ | noted⟩
      · rw [hcurrent] at h
        obtain ⟨hdelay, hseen⟩ := noted_beginPeriodic h
        exact ⟨if_neg hdelay, .inr ⟨hseen, if_neg hdelay⟩⟩
      · rw [hcurrent] at h
        obtain ⟨hdelay, hseen⟩ := noted_beginPeriodic h
        exact ⟨if_neg hdelay, .inr ⟨hseen, if_neg hdelay⟩⟩
      · rw [hcurrent] at h
        dsimp only at h
        rw [turns_finishPeriodic] at h
        exact absurd h (current?_pass_ne _ _ _)
      · rw [hcurrent] at h
        simp only [Turns.ask, hcurrent] at h
        exact ⟨rfl, .inl h⟩
      · rw [hcurrent] at h
        simp only [Turns.ask, hcurrent] at h
        exact ⟨rfl, .inl h⟩
    · rw [turns_perform_of_ne_refresher _ now htask] at h
      exact ⟨if_neg fun hmine => htask hmine.1, .inl h⟩
  · simp only [move, if_neg hready] at h
    exact ⟨if_neg fun hmine => hready hmine.2, .inl h⟩

/-- **Where a note comes from:** the cycle was on already, or it has begun and noted what is live.
The move ends no cycle. -/
theorem noted_move {t : Tracker} {a : Move} {owner : Requester} {seen : List String}
    (h : (t.move a).turns.current? = some { owner, seen? := some seen }) :
    t.answer? a = none ∧ (t.turns.current? = some { owner, seen? := some seen } ∨
      seen = t.board.trackedNames ∧ t.stepsOf a = []) := by
  cases a with
  | perform now task => exact noted_perform h
  | start now =>
      refine ⟨rfl, .inl ?_⟩
      cases hphase : t.phase with
      | idle => simpa only [move, start, hphase] using h
      | _ => simpa only [move, start, hphase] using h
  | stop =>
      refine ⟨rfl, .inl ?_⟩
      cases hphase : t.phase with
      | idle =>
          simp only [move, stop, hphase] at h
          cases h
      | running =>
          simp only [move, stop, hphase] at h
          cases h
      | _ => simpa only [move, stop, hphase] using h
  | drop => cases h
  | send messages =>
      obtain ⟨_, _, _, _, hsend⟩ := send_frame t messages
      simp only [move, hsend] at h
      exact ⟨rfl, .inl h⟩
  | ask caller =>
      refine ⟨rfl, .inl ?_⟩
      simp only [move] at h
      split at h
      · cases hcurrent : t.turns.current? with
        | none => simp [askTurn, Turns.ask, hcurrent] at h
        | some turn => simpa [askTurn, Turns.ask, hcurrent] using h
      · exact h
  | begin caller =>
      refine ⟨rfl, ?_⟩
      simp only [move] at h
      split at h
      · split at h
        · exact .inr ⟨current?_begin h, rfl⟩
        · exact .inl h
      · exact .inl h
  | conclude now caller =>
      simp only [move] at h
      split at h
      case h_1 holder noted hcurrent =>
        split at h
        case isTrue hmine =>
          obtain ⟨_, hconclude⟩ := concludeCycle_frame t now noted
          rw [hconclude] at h
          exact absurd h (current?_pass_ne _ _ _)
        case isFalse hother =>
          exact ⟨by simp only [answer?, hcurrent, if_neg hother], .inl h⟩
      case h_2 hnone =>
        exact ⟨by simp only [answer?], .inl h⟩
  | leave caller =>
      refine ⟨rfl, .inl ?_⟩
      simp only [move, leaveTurn] at h
      split at h
      · obtain ⟨_, hpass⟩ := passTurn_frame t
        rw [hpass] at h
        exact absurd h (current?_pass_ne _ _ _)
      · next hheld => simpa only [Turns.leave, if_neg hheld] using h
  | refreshDetached now =>
      by_cases hfree : t.isServing = true ∧ t.turns.current? = none
      · -- no cycle is on, so nothing has been noted
        have hturns : (t.refreshDetached now).2.turns = t.turns := by
          unfold refreshDetached
          split
          · rfl
          · split <;> rfl
        rw [move, if_pos hfree, hturns, hfree.2] at h
        cases h
      · rw [move, if_neg hfree] at h
        exact ⟨if_neg hfree, .inl h⟩
  | takeResyncs =>
      simp only [move, takeResyncs] at h
      split at h <;> exact ⟨rfl, .inl h⟩
  | _ => exact ⟨rfl, .inl h⟩

/-- **A cycle that is on has noted all that is live.** -/
def Notes (t : Tracker) : Prop :=
  ∀ who seen, t.turns.current? = some { owner := who, seen? := some seen } →
    ∀ name ∈ t.board.trackedNames, name ∈ seen

/-- **Every move keeps the note good:** the turn is passed on when a cycle has started workers. -/
theorem Notes.move {t : Tracker} (h : t.Notes) (a : Move) : (t.move a).Notes := by
  intro who seen hturn name hname
  rw [board_move] at hname
  obtain ⟨hanswer, hturn | ⟨rfl, hsteps⟩⟩ := noted_move hturn
  · exact h who seen hturn name (Board.mem_trackedNames_of_takeAll
      (fun s hs => startsNone_of_answer?_eq_none hanswer hs) hname)
  · rwa [hsteps] at hname

/-- **What a cycle has noted is good at any time.** -/
theorem notes_moves {config : Config} {directory : Directory} {t : Tracker}
    (h : new config directory = .ok t) (as : List Move) : (t.moves as).Notes := by
  induction as using List.reverseRecOn with
  | nil =>
      rw [moves_nil, eq_of_new h]
      exact fun _ _ hturn => nomatch hturn
  | append_singleton as a ih =>
      rw [moves_concat]
      exact ih.move a

/-! ### A cycle -/

end Tracker

/-- **The directory is a catalog made by hand,** and nothing else.  How often its look-ups fail and
how long they take is left open. -/
structure Directory.Made (directory : Directory) (edits : List Catalog.Edit) : Prop where
  catalog : directory.catalog = .edited edits
  aliases : directory.aliases = []
  wanted : directory.wanted? = none

theorem Directory.Made.contents_eq {directory : Directory} {edits : List Catalog.Edit}
    (h : directory.Made edits) : directory.contents = .edited edits := by
  rw [contents, h.aliases, ← h.catalog]
  rfl

namespace Tracker

/-- A cycle that fails leaves the board as it is. -/
theorem concludeCycle_of_failure {t : Tracker} (h : t.directory.failures ≠ 0) (now : Nat)
    (seen : List String) :
    ∃ fault, (t.concludeCycle now seen).1 = .error fault ∧
      (t.concludeCycle now seen).2.board = t.board := by
  obtain ⟨fault, hlookup⟩ := Directory.lookup_of_failures_ne_zero h
  obtain ⟨_, hconclude⟩ := concludeCycle_frame t now seen
  refine ⟨fault, ?_, by simp only [hconclude, concludeSteps, hlookup, Board.takeAll_nil]⟩
  have hpair : t.directory.lookup = (.error fault, t.directory.lookup.2) := Prod.ext hlookup rfl
  rw [concludeCycle, hpair]

/-- A cycle that succeeds converges the board, makes the new workers ready and passes the turn. -/
theorem concludeCycle_of_success {t : Tracker} (h : t.directory.failures = 0) (now : Nat)
    (seen : List String) :
    t.concludeCycle now seen =
      (.ok (t.board.converge now true seen t.directory.contents).1,
        ({ t with board := (t.board.converge now true seen t.directory.contents).2 }.spawnWorkers
          ((t.board.converge now true seen t.directory.contents).2.madeSince
            t.board.nextSerial)).passTurn) := by
  simp only [concludeCycle, Directory.lookup_of_failures_eq_zero h]

/-- There are as many books as entries, so the tracker is ready if there are any. -/
theorem isReady_iff_of_names {t : Tracker} {edits : List Catalog.Edit}
    (made : t.directory.Made edits)
    (names : t.board.registry.names = (Catalog.edited edits).names) :
    t.isReady = true ↔ Catalog.edited edits ≠ .empty := by
  have hsize : t.board.registry.size = (Catalog.edited edits).size := by
    have hlength := congrArg List.length names
    simpa [NameTable.names, NameTable.size] using hlength
  have hwanted : t.directory.wantedCount = (Catalog.edited edits).size := by
    rw [Directory.wantedCount, made.wanted, ← made.catalog]
  rw [isReady, hwanted, hsize]
  simp only [le_refl, decide_true, Bool.and_true, decide_eq_true_eq]
  constructor
  · rintro hpos hempty
    rw [hempty] at hpos
    exact absurd hpos (Nat.lt_irrefl 0)
  · intro hne
    refine Nat.pos_of_ne_zero fun hzero => hne ?_
    exact NameTable.ext (List.eq_nil_of_length_eq_zero hzero)

/-- A cycle that finds everything settled only passes the turn. -/
theorem concludeCycle_of_settled {t : Tracker} {found : Catalog} (h : t.directory.failures = 0)
    (hcontents : t.directory.contents = found) (names : t.board.registry.names = found.names)
    (tracked : t.board.trackedNames = found.names)
    (given : ∀ name r, t.board.find? name = some r → r.serial < t.board.nextSerial) (now : Nat) :
    t.concludeCycle now t.board.trackedNames = (.ok {}, t.passTurn) := by
  have hsettled : t.board.converge now true t.board.trackedNames found = ({}, t.board) := by
    refine Board.converge_of_settled now true ?_ ?_
    · intro name hname
      rw [tracked]
      exact NameTable.mem_names_iff.2 hname
    · intro name hname
      rw [← NameTable.mem_names_iff, names] at hname
      exact NameTable.mem_names_iff.1 hname
  have hnone : t.board.madeSince t.board.nextSerial = [] := by
    refine List.filter_eq_nil_iff.2 ?_
    intro r hr
    obtain ⟨⟨name, r⟩, hentry, rfl⟩ := List.mem_map.1 hr
    have hlt := given name r (NameTable.mem_entries_iff.1 hentry)
    simpa using hlt
  rw [concludeCycle_of_success h, hcontents, hsettled]
  simp [spawnWorkers, hnone]

/-- **After a cycle that has converged, the next one finds nothing to do,** whatever else of the
tracker has changed by then. -/
theorem concludeCycle_of_converged {t : Tracker} {edits : List Catalog.Edit}
    (made : t.directory.Made edits) (h : t.directory.failures = 0) {config : Config}
    {steps : List Board.Step} (hboard : t.board = (Board.start config).takeAll steps) {b : Board}
    {now : Nat} {outcome : RefreshOutcome}
    (converged : b.ConvergesTo (.edited edits) now outcome t.board) (now₂ : Nat) :
    t.concludeCycle now₂ t.board.trackedNames = (.ok {}, t.passTurn) := by
  refine concludeCycle_of_settled h made.contents_eq converged.names converged.tracked ?_ now₂
  -- the serial numbers of the board have all been given out
  rw [hboard]
  exact fun _ _ hr => Board.serial_lt_of_find? _ hr

/-- The end of a cycle that is on and has noted `seen`. -/
theorem convergesTo_concludeCycle {config : Config} {directory : Directory} {t₀ : Tracker}
    (h : new config directory = .ok t₀) (as : List Move) {t : Tracker} (reached : t = t₀.moves as)
    {edits : List Catalog.Edit} (made : t.directory.Made edits) {seen : List String}
    (hseen : ∀ name, name ∈ seen ↔ name ∈ t.board.trackedNames)
    (hsuccess : t.directory.failures = 0) (now : Nat) :
    ∃ outcome t', t.concludeCycle now seen = (.ok outcome, t') ∧
      t.board.ConvergesTo (.edited edits) now outcome t'.board ∧
      (t'.isReady = true ↔ Catalog.edited edits ≠ .empty) ∧
      ∀ (t₂ : Tracker) (now₂ : Nat), t₂.board = t'.board → t₂.directory = t'.directory →
        t₂.concludeCycle now₂ t₂.board.trackedNames = (.ok {}, t₂.passTurn) := by
  have hconverges := Board.convergesTo_converge (Catalog.faithful_edited edits) hseen now
  have hconclude := concludeCycle_of_success hsuccess now seen
  rw [made.contents_eq] at hconclude
  obtain ⟨ready, hframe⟩ := passTurn_frame
    ({ t with board := (t.board.converge now true seen (.edited edits)).2 }.spawnWorkers
      ((t.board.converge now true seen (.edited edits)).2.madeSince t.board.nextSerial))
  rw [hframe] at hconclude
  refine ⟨_, _, hconclude, hconverges, isReady_iff_of_names ⟨made.1, made.2, made.3⟩
    hconverges.names, ?_⟩
  intro t₂ now₂ hboard hdirectory
  have hdirectory' : t₂.directory = t.directory := hdirectory
  have hboard' : t₂.board = (Board.start config).takeAll
      (t₀.trace as ++ [.converge now true seen (.edited edits)]) := by
    rw [hboard, Board.takeAll_concat, ← board_moves_of_new h as, ← reached]
    rfl
  exact concludeCycle_of_converged (hdirectory' ▸ made) (by rw [hdirectory', hsuccess]) hboard'
    (by rw [hboard]; exact hconverges) now₂

/-- The same for a move that ends a cycle. -/
theorem Ends.convergesTo {t : Tracker} {a : Move} {now : Nat} {seen : List String}
    {answer : RefreshAnswer} (h : t.Ends a now true seen answer) {edits : List Catalog.Edit}
    (made : t.directory.Made edits) (hseen : ∀ name, name ∈ seen ↔ name ∈ t.board.trackedNames) :
    (t.directory.failures = 0 → ∃ outcome, answer = .done outcome ∧
      t.board.ConvergesTo (.edited edits) now outcome (t.move a).board) ∧
    (t.directory.failures ≠ 0 → ∃ fault log, answer = .failed fault ∧
      (t.move a).board = { t.board with log }) := by
  rcases h.board_cases with ⟨fault, log, hanswer, looked, hboard⟩ |
    ⟨outcome, hanswer, looked, hconverge⟩
  · refine ⟨fun hsuccess => ?_, fun _ => ⟨fault, log, hanswer, hboard⟩⟩
    rw [Directory.lookup_of_failures_eq_zero hsuccess] at looked
    cases looked
  · refine ⟨fun _ => ⟨outcome, hanswer, ?_⟩, fun hfail => ?_⟩
    · have hconverges := Board.convergesTo_converge (Catalog.faithful_edited edits) hseen now
      rw [made.contents_eq] at hconverge
      rwa [hconverge] at hconverges
    · obtain ⟨fault, hlookup⟩ := Directory.lookup_of_failures_ne_zero hfail
      rw [looked] at hlookup
      cases hlookup

/-- **A cycle of a tracker converges on its directory.**  Let tasks act in any order and let
anything happen outside.  In the first part a cycle is on that noted `seen` as it began, and no
worker of these has terminated since.  If the look-up succeeds, the cycle ends with the listed
instruments registered and live, the old ones as they were and the others anew, and with a true
outcome; the tracker is ready unless nothing is listed, and the next cycle finds nothing to do,
whatever else of the tracker has changed by then.  If it fails, the board stays as it is.  The
second part says this of any move of the refresher or of a caller that ends a cycle, also when the
refresher does not have to wait for the directory, so that its cycle begins and ends in one move.
Only cycles whose new workers do not outlive them are left out, as what they register is not live. -/
theorem convergesTo_of_moves {config : Config} {directory : Directory} {t₀ : Tracker}
    (h : new config directory = .ok t₀) (as : List Move) {t : Tracker} (reached : t = t₀.moves as)
    {edits : List Catalog.Edit} (made : t.directory.Made edits)
    (unbroken : ∀ who seen, t.turns.current? = some { owner := who, seen? := some seen } →
      ∀ name ∈ seen, name ∈ t.board.trackedNames) :
    (∀ who seen, t.turns.current? = some { owner := who, seen? := some seen } → ∀ now,
      (t.directory.failures = 0 →
        ∃ outcome t', t.concludeCycle now seen = (.ok outcome, t') ∧
          t.board.ConvergesTo (.edited edits) now outcome t'.board ∧
          (t'.isReady = true ↔ Catalog.edited edits ≠ .empty) ∧
          ∀ (t₂ : Tracker) (now₂ : Nat), t₂.board = t'.board → t₂.directory = t'.directory →
            t₂.concludeCycle now₂ t₂.board.trackedNames = (.ok {}, t₂.passTurn)) ∧
      (t.directory.failures ≠ 0 →
        ∃ fault, (t.concludeCycle now seen).1 = .error fault ∧
          (t.concludeCycle now seen).2.board = t.board)) ∧
    ∀ (a : Move) (now : Nat) (answer : RefreshAnswer),
      (a = .perform now .refresher ∨ ∃ caller, a = .conclude now caller) →
      t.answer? a = some answer →
      (t.directory.failures = 0 →
        ∃ outcome, answer = .done outcome ∧
          t.board.ConvergesTo (.edited edits) now outcome (t.move a).board ∧
          ((t.move a).isReady = true ↔ Catalog.edited edits ≠ .empty) ∧
          ∀ (t₂ : Tracker) (now₂ : Nat), t₂.board = (t.move a).board →
            t₂.directory = (t.move a).directory →
            t₂.concludeCycle now₂ t₂.board.trackedNames = (.ok {}, t₂.passTurn)) ∧
      (t.directory.failures ≠ 0 →
        ∃ fault log, answer = .failed fault ∧ (t.move a).board = { t.board with log }) := by
  have hnotes : t.Notes := by
    rw [reached]
    exact notes_moves h as
  -- nothing has come to life since the cycle began, and nothing that was noted has died
  have hseen : ∀ seen, t.HasNoted seen → ∀ name, name ∈ seen ↔ name ∈ t.board.trackedNames := by
    rintro seen (⟨who, turn⟩ | rfl) name
    · exact ⟨unbroken who seen turn name, hnotes who seen turn name⟩
    · exact Iff.rfl
  refine ⟨fun who seen turn now => ⟨fun hsuccess => ?_, fun hfail =>
    concludeCycle_of_failure hfail now seen⟩, fun a now answer ha hanswer => ?_⟩
  · exact convergesTo_concludeCycle h as reached made (hseen seen (.inl ⟨who, turn⟩)) hsuccess now
  · obtain ⟨now', live, seen, hending, hnoted, hends⟩ := ends_of_answer? hanswer
    obtain ⟨rfl, rfl⟩ : now = now' ∧ true = live := by
      rcases ha with rfl | ⟨caller, rfl⟩ <;> exact Prod.mk.inj (Option.some.inj hending)
    obtain ⟨hdone, hfailed⟩ := hends.convergesTo made (hseen seen hnoted)
    refine ⟨fun hsuccess => ?_, hfailed⟩
    obtain ⟨outcome, houtcome, hconverges⟩ := hdone hsuccess
    have hdirectory : (t.move a).directory = t.directory := by
      rw [directory_move_of_answer? hanswer, Directory.lookup_of_failures_eq_zero hsuccess]
    have hboard : (t.move a).board = (Board.start config).takeAll (t₀.trace (as ++ [a])) := by
      rw [reached, ← moves_concat, board_moves_of_new h]
    refine ⟨outcome, houtcome, hconverges, isReady_iff_of_names (hdirectory ▸ made)
      hconverges.names, fun t₂ now₂ hboard₂ hdirectory₂ => ?_⟩
    rw [hdirectory] at hdirectory₂
    exact concludeCycle_of_converged (hdirectory₂ ▸ made) (by rw [hdirectory₂, hsuccess])
      (hboard₂.trans hboard) (hboard₂ ▸ hconverges) now₂

/-- The first cycle begins and ends in one move, with three instruments.  Then one loses its worker,
one is taken off the list, and one keeps a message that waits; a fourth one is added. -/
theorem convergesTo_of_moves_with_lost_worker :
    let config : Config := { windowSize := 2, queueCapacity := 2 }
    let listing (name : String) : Listing :=
      { instrument := name, timestamp := 0, book := .empty name }
    let first : Catalog.Edit := .set [listing "A", listing "B", listing "D"]
    let edits : List Catalog.Edit := [first, .remove "A", .insert (listing "C")]
    let directory : Directory := { catalog := .edited [first] }
    let t₀ : Tracker := { board := .start config, directory }
    let diff : Message := .diff { instrument := "B", updateId := 1, timestamp := 0 }
    let as : List Move := [.start 0, .perform 0 .refresher, .loseWorker "D",
      .changeDirectory { catalog := .edited edits }, .ask 0, .begin 0, .send [(.diff, diff)],
      .perform 1 .diffRouter]
    let began := t₀.moves [.start 0]
    let t := t₀.moves as
    new config directory = .ok t₀ ∧
    (∃ outcome, began.answer? (.perform 0 .refresher) = some (.done outcome) ∧
      began.board.ConvergesTo (.edited [first]) 0 outcome
        (began.move (.perform 0 .refresher)).board) ∧
    t.directory.Made edits ∧
    t.turns.current? = some { owner := .caller 0, seen? := some ["A", "B"] } ∧
    (∀ name ∈ ["A", "B"], name ∈ t.board.trackedNames) ∧ t.directory.failures = 0 ∧
    ∃ outcome t', t.concludeCycle 1 ["A", "B"] = (.ok outcome, t') ∧
      t.board.ConvergesTo (.edited edits) 1 outcome t'.board ∧
      outcome = { added := ["C", "D"], removed := ["A"] } ∧
      (t'.board.find? "B").map (·.inbox) = some [diff] := by
  intro config listing first edits directory t₀ diff as began t
  have hnew : new config directory = .ok t₀ := rfl
  have hbegan : began = t₀.moves [.start 0] := rfl
  have reached : t = t₀.moves as := rfl
  -- the first cycle
  have hfirst : began.directory = directory := by
    unfold began t₀
    cbv
  have hfree : began.turns.current? = none := by
    unfold began t₀
    cbv
  have hanswer : (began.answer? (.perform 0 .refresher)).isSome = true := by
    unfold began t₀
    cbv
  clear_value began
  have hatonce : ∃ outcome, began.answer? (.perform 0 .refresher) = some (.done outcome) ∧
      began.board.ConvergesTo (.edited [first]) 0 outcome
        (began.move (.perform 0 .refresher)).board := by
    obtain ⟨answer, hanswer⟩ := Option.isSome_iff_exists.1 hanswer
    have hmade : began.directory.Made [first] := by
      rw [hfirst]
      exact ⟨rfl, rfl, rfl⟩
    have hnobody : ∀ who seen, began.turns.current? = some { owner := who, seen? := some seen } →
        ∀ name ∈ seen, name ∈ began.board.trackedNames := by
      intro who seen hturn
      rw [hfree] at hturn
      cases hturn
    obtain ⟨outcome, rfl, hconverges, -⟩ := ((convergesTo_of_moves hnew _ hbegan hmade hnobody).2
      (.perform 0 .refresher) 0 answer (.inl rfl) hanswer).1 (by rw [hfirst])
    exact ⟨outcome, hanswer, hconverges⟩
  -- the second cycle
  have hdirectory : t.directory = { catalog := .edited edits } := by
    unfold t t₀
    cbv
  have hturn : t.turns.current? = some { owner := .caller 0, seen? := some ["A", "B"] } := by
    unfold t t₀
    cbv
  have htracked : t.board.trackedNames = ["A", "B"] := by
    unfold t t₀
    cbv
  have houtcome : (t.concludeCycle 1 ["A", "B"]).1 =
      .ok { added := ["C", "D"], removed := ["A"] } := by
    unfold t t₀
    cbv
  have hinbox : (((t.concludeCycle 1 ["A", "B"]).2.board.find? "B").map (·.inbox)) =
      some [diff] := by
    unfold t t₀
    cbv
  -- from here on only these facts about the tracker count
  clear_value t
  have hmade : t.directory.Made edits := by
    rw [hdirectory]
    exact ⟨rfl, rfl, rfl⟩
  have hunbroken : ∀ name ∈ ["A", "B"], name ∈ t.board.trackedNames := by
    rw [htracked]
    exact fun _ hname => hname
  have hsuccess : t.directory.failures = 0 := by rw [hdirectory]
  have hnoted : ∀ who seen, t.turns.current? = some { owner := who, seen? := some seen } →
      ∀ name ∈ seen, name ∈ t.board.trackedNames := by
    rintro who seen hother
    rw [hturn] at hother
    cases hother
    exact hunbroken
  obtain ⟨outcome, t', hconclude, hconverges, -⟩ :=
    ((convergesTo_of_moves hnew as reached hmade hnoted).1 _ _ hturn 1).1 hsuccess
  rw [hconclude] at houtcome hinbox
  exact ⟨hnew, hatonce, hmade, hturn, hunbroken, hsuccess, outcome, t', hconclude, hconverges,
    Except.ok.inj houtcome, hinbox⟩

end Tracker

end MarketDepth
