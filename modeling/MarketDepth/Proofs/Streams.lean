/-
**Streams.**

The messages of a stream wait until its task takes them.  Whatever happens to a tracker, they are
taken in the order in which they were sent; a stream that is closed takes no more, and what it held
is gone.

Main definitions:

* `MarketDepth.Tracker.stream`, `MarketDepth.Tracker.sent`, `MarketDepth.Board.taken` — the messages
  that wait in a stream, those that it was sent, and those that were taken from it.

Main results:

* `MarketDepth.Tracker.taken_stepsOf_append_stream` — what a move takes and leaves was there before
  or is sent;
* `MarketDepth.Tracker.taken_sublist_sent` — **messages are taken in the order in which they were
  sent.**
-/

import MarketDepth.Proofs.Moves

set_option relaxedAutoImplicit false
set_option autoImplicit false

namespace MarketDepth

/-! ### Messages taken -/

/-- The message that a step takes from the stream of a kind. -/
def Board.Step.taken? (stream : Kind) : Board.Step → Option Message
  | .routeDiff _ m => if stream = .diff then some m else none
  | .routeSnapshot m => if stream = .snapshot then some m else none
  | .emitTrade _ m => if stream = .trade then some m else none
  | _ => none

/-- **The messages that a run takes from a stream.** -/
def Board.taken (stream : Kind) (steps : List Board.Step) : List Message :=
  steps.filterMap (·.taken? stream)

theorem Board.taken_cons (stream : Kind) (s : Board.Step) (steps : List Board.Step) :
    taken stream (s :: steps) = (s.taken? stream).toList ++ taken stream steps := by
  rw [taken, taken, List.filterMap_cons]
  cases s.taken? stream <;> rfl

theorem Board.taken_append (stream : Kind) (steps steps' : List Board.Step) :
    taken stream (steps ++ steps') = taken stream steps ++ taken stream steps' :=
  List.filterMap_append

namespace Tracker

/-- The messages that wait in the stream of a kind. -/
def stream (t : Tracker) : Kind → List Message
  | .diff => t.diffs
  | .snapshot => t.snapshots
  | .trade => t.trades

/-- The messages that a move sends to a stream, whether the stream takes them or not. -/
def Move.sent (stream : Kind) : Move → List Message
  | .send messages => (messages.filter (·.1 = stream)).map (·.2)
  | _ => []

/-- **The messages that a list of moves sends to a stream.** -/
def sent (stream : Kind) (as : List Move) : List Message :=
  as.flatMap (·.sent stream)

theorem sent_concat (stream : Kind) (as : List Move) (a : Move) :
    sent stream (as ++ [a]) = sent stream as ++ a.sent stream := by
  simp [sent]

@[simp] theorem taken_faultSteps (stream : Kind) (task : Task) (config : Config)
    (fault? : Option Fault) : Board.taken stream (task.faultSteps config fault?) = [] := by
  cases fault? <;> rfl

@[simp] theorem taken_concludeSteps (stream : Kind) (t : Tracker) (now : Nat) (live : Bool)
    (seen : List String) : Board.taken stream (t.concludeSteps now live seen) = [] := by
  unfold concludeSteps
  split <;> rfl

@[simp] theorem taken_finishSteps (stream : Kind) (t : Tracker) (now : Nat) (seen : List String) :
    Board.taken stream (t.finishSteps now seen) = [] := by
  unfold finishSteps
  split <;> rfl

@[simp] theorem taken_beginSteps (stream : Kind) (t : Tracker) (now : Nat) :
    Board.taken stream (t.beginSteps now) = [] := by
  unfold beginSteps
  split
  · exact taken_finishSteps stream t now _
  · rfl

/-- A task takes the first message of its stream. -/
theorem taken_stepsOfTask_append_stream (stream : Kind) (t : Tracker) (now : Nat) (task : Task) :
    Board.taken stream (t.stepsOfTask now task) ++ (t.perform now task).stream stream =
      t.stream stream := by
  obtain ⟨_, _, _, _, hperform⟩ := perform_frame t now task
  rw [hperform]
  cases task with
  | tradeEmitter =>
      simp only [stepsOfTask]
      cases htrades : t.trades with
      | nil => cases stream <;> simp [Tracker.stream, Board.taken, htrades]
      | cons m trades =>
          rw [Board.taken_cons, taken_faultSteps]
          cases stream <;> simp [Tracker.stream, Board.Step.taken?, htrades]
  | diffRouter =>
      simp only [stepsOfTask]
      cases hdiffs : t.diffs with
      | nil => cases stream <;> simp [Tracker.stream, Board.taken, hdiffs]
      | cons m diffs =>
          rw [Board.taken_cons, taken_faultSteps]
          cases stream <;> simp [Tracker.stream, Board.Step.taken?, hdiffs]
  | snapshotRouter =>
      simp only [stepsOfTask]
      cases hsnapshots : t.snapshots with
      | nil => cases stream <;> simp [Tracker.stream, Board.taken, hsnapshots]
      | cons m snapshots =>
          rw [Board.taken_cons, taken_faultSteps]
          cases stream <;> simp [Tracker.stream, Board.Step.taken?, hsnapshots]
  | refresher =>
      have hnone : Board.taken stream (t.stepsOfTask now .refresher) = [] := by
        simp only [stepsOfTask]
        rcases t.turns.current? with _ | ⟨_ | caller, _ | seen⟩
        · exact taken_beginSteps stream t now
        · exact taken_beginSteps stream t now
        · exact taken_finishSteps stream t now seen
        · rfl
        · rfl
      rw [hnone]
      cases stream <;> rfl
  | worker instrument serial =>
      have hnone : Board.taken stream (t.stepsOfTask now (.worker instrument serial)) = [] := by
        simp only [stepsOfTask]
        split
        · rfl
        · split
          · rw [Board.taken_cons, taken_faultSteps]
            rfl
          · rfl
      rw [hnone]
      cases stream <;> rfl

theorem stream_push (t : Tracker) (target stream : Kind) (m : Message) :
    (t.push target m).stream stream =
      t.stream stream ++ if target = stream then [m] else [] := by
  obtain ⟨ready, hpush⟩ := push_frame t target m
  rw [hpush]
  cases stream <;> simp only [Tracker.stream] <;> split <;> simp_all

theorem stream_foldl_push (ms : List (Kind × Message)) (t : Tracker) (stream : Kind) :
    (ms.foldl (fun t m => t.push m.1 m.2) t).stream stream =
      t.stream stream ++ (ms.filter (·.1 = stream)).map (·.2) := by
  induction ms generalizing t with
  | nil => simp
  | cons m ms ih =>
      rw [List.foldl_cons, ih, stream_push, List.append_assoc]
      by_cases h : m.1 = stream <;> simp [h]

/-- **What a move takes from a stream and what it leaves there was there or is sent.** -/
theorem taken_stepsOf_append_stream (stream : Kind) (t : Tracker) (a : Move) :
    (Board.taken stream (t.stepsOf a) ++ (t.move a).stream stream).Sublist
      (t.stream stream ++ a.sent stream) := by
  cases a with
  | perform now task =>
      simp only [move, stepsOf, Move.sent, List.append_nil]
      split
      · have htask : Board.taken stream (t.stepsOfTask now task) ++
            ({ t with ready := t.ready.erase task }.perform now task).stream stream =
              t.stream stream :=
          taken_stepsOfTask_append_stream stream { t with ready := t.ready.erase task } now task
        rw [htask]
      · exact .refl _
  | start now =>
      simp only [move, start, stepsOf, Move.sent, List.append_nil]
      cases t.phase <;> exact .refl _
  | stop =>
      simp only [move, stop, stepsOf, Move.sent, List.append_nil]
      cases t.phase with
      | running => cases stream <;> exact List.nil_sublist _
      | _ => exact .refl _
  | drop => cases stream <;> exact List.nil_sublist _
  | send messages =>
      simp only [move, stepsOf, Move.sent, send]
      split
      · rw [stream_foldl_push]
        exact .refl _
      · exact List.sublist_append_left _ _
  | ask caller =>
      simp only [move, stepsOf, Move.sent, List.append_nil]
      split <;> exact .refl _
  | begin caller =>
      simp only [move, stepsOf, Move.sent, List.append_nil]
      split
      · split <;> exact .refl _
      · exact .refl _
  | conclude now caller =>
      simp only [move, stepsOf, Move.sent, List.append_nil]
      rcases t.turns.current? with _ | ⟨owner, _ | seen⟩
      · exact .refl _
      · exact .refl _
      · dsimp only
        split
        · obtain ⟨ready, hconclude⟩ := concludeCycle_frame t now seen
          rw [hconclude, taken_concludeSteps]
          exact .refl _
        · exact .refl _
  | leave caller =>
      simp only [move, leaveTurn, stepsOf, Move.sent, List.append_nil]
      split
      · obtain ⟨ready, hpass⟩ := passTurn_frame t
        rw [hpass]
        exact .refl _
      · exact .refl _
  | refreshDetached now =>
      simp only [move, stepsOf, Move.sent, List.append_nil]
      split
      · rw [taken_concludeSteps, refreshDetached]
        split
        · exact .refl _
        · split <;> exact .refl _
      · exact .refl _
  | takeResyncs =>
      simp only [move, takeResyncs, stepsOf, Move.sent, List.append_nil]
      split <;> exact .refl _
  | _ => exact List.sublist_append_left _ _

/-- **Messages are taken from a stream in the order in which they were sent to it,** and those
that wait there come next. -/
theorem taken_sublist_sent {config : Config} {directory : Directory} {t : Tracker}
    (h : new config directory = .ok t) (stream : Kind) (as : List Move) :
    (Board.taken stream (t.trace as) ++ (t.moves as).stream stream).Sublist (sent stream as) := by
  induction as using List.reverseRecOn with
  | nil =>
      have hempty : t.stream stream = [] := by
        rw [eq_of_new h]
        cases stream <;> rfl
      rw [moves_nil, hempty]
      exact .refl _
  | append_singleton as a ih =>
      -- the last move takes from the front of what waits, and adds to its end
      rw [trace_concat, moves_concat, sent_concat, Board.taken_append, List.append_assoc]
      refine .trans ((taken_stepsOf_append_stream stream (t.moves as) a).append_left _) ?_
      rw [← List.append_assoc]
      exact ih.append_right _

end Tracker

end MarketDepth
