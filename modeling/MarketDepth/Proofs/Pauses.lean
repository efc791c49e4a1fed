/-
**A failing message costs only itself.**

A reader fails on a message of the wrong kind, and a router on one whose worker is dead.  The
message is gone then, but nothing else is: the board keeps everything except that the fault is
logged, and the reader pauses.  While it does, its stream only grows, and when the pause is over the
reader goes on with the message that comes next.  So the messages that a reader passes on are those
of the right kind among the messages sent, in the order in which they were sent, wherever the
failing ones stand.

Main definitions:

* `MarketDepth.Board.Fails` — **which messages a reader fails on**;
* `MarketDepth.Board.passed` — the messages that a run passes on, be it to a queue, to a book, or to
  the count of what is turned away;
* `MarketDepth.Tracker.Follows` — what has been taken from a stream, against what was sent to it;
* `MarketDepth.Tracker.Pauses` — **the reader of a stream pauses**.

Main results:

* `MarketDepth.Tracker.perform_of_fault` — what a reader does with a failing message;
* `MarketDepth.Tracker.follows_of_moves` — **no message is skipped, and none is taken twice**;
* `MarketDepth.Tracker.pauses_of_asleep` — what holds during a pause and at its end;
* `MarketDepth.Tracker.failing_message_costs_itself` — all of this for every run.
-/

import MarketDepth.Proofs.Attention
import MarketDepth.Proofs.Streams

set_option relaxedAutoImplicit false
set_option autoImplicit false

namespace MarketDepth

/-! ### Failing messages -/

namespace Board

/-- **A reader fails on a message** that is of another kind than its stream, and a router on one for
a dead worker, unless it is a diff that is turned away for its age before. -/
def Fails (b : Board) (stream : Kind) (m : Message) : Prop :=
  m.kind ≠ stream ∨
    stream ≠ .trade ∧ ∃ r, b.find? m.instrument = some r ∧ r.live = false ∧
      (stream = .diff → m.updateId?.any (· ≤ r.book.uid) = false)

/-- An offer finds a queue closed when its worker is dead and the message is not turned away. -/
theorem offer_eq_closed_iff {b : Board} {m : Message} {checkAge : Bool} :
    (b.offer m checkAge).1 = .closed ↔
      ∃ r, b.find? m.instrument = some r ∧ r.live = false ∧
        (checkAge = true → m.updateId?.any (· ≤ r.book.uid) = false) := by
  cases hr : b.find? m.instrument with
  | none => simp [offer_of_find?_eq_none hr]
  | some r =>
      rw [offer_of_find? hr]
      split
      case isTrue hold =>
        rw [Bool.and_eq_true] at hold
        simp [hold.1, hold.2]
      case isFalse hfresh =>
        rw [Bool.and_eq_true, not_and, Bool.not_eq_true] at hfresh
        split
        case isTrue hdead => simpa using ⟨hdead, hfresh⟩
        case isFalse hlive => split <;> simp [hlive]

/-- **These are the messages that readers meet faults with.** -/
theorem fails_iff {b : Board} {stream : Kind} {m : Message} (now : Nat) :
    b.Fails stream m ↔ ∃ fault, b.fault? stream (stream.step now m) = some fault := by
  by_cases hkind : m.kind = stream
  · subst hkind
    cases m with
    | diff d =>
        have hfault := faultOf?_routeDiff (b := b) (m := .diff d) rfl now
        simp [Fails, fault?, Kind.step, hfault, offer_eq_closed_iff]
    | snapshot s =>
        have hfault := faultOf?_routeSnapshot (b := b) (m := .snapshot s) rfl
        simp [Fails, fault?, Kind.step, hfault, offer_eq_closed_iff]
    | trade t =>
        have hfault : (b.emitTrade now (.trade t)).1 = none := by
          simp only [emitTrade]
          split <;> rfl
        simp [Fails, fault?, Kind.step, hfault]
  · refine iff_of_true (.inl hkind) ?_
    cases stream with
    | diff => exact ⟨_, by rw [Kind.step, fault?, if_pos rfl, routeDiff_of_kind_ne hkind]; rfl⟩
    | snapshot =>
        exact ⟨_, by rw [Kind.step, fault?, if_pos rfl, routeSnapshot_of_kind_ne hkind]; rfl⟩
    | trade =>
        cases m with
        | trade t => exact absurd rfl hkind
        | _ => exact ⟨_, rfl⟩

@[simp] theorem totals_record (b : Board) (events : List Event) :
    (b.record events).totals = b.totals := rfl

/-! ### Messages passed on -/

/-- The message from the stream of a kind that a step passes on: a router offers it to a queue, and
the emitter enters a trade on the book of its instrument, or only counts it as rejected if that is
not registered. -/
def Step.passed? (stream : Kind) : Step → Option Message
  | .routeDiff now m =>
      if stream = .diff then (Step.routeDiff now m).offered?.map (·.1) else none
  | .routeSnapshot m =>
      if stream = .snapshot then (Step.routeSnapshot m).offered?.map (·.1) else none
  | .emitTrade _ (.trade t) => if stream = .trade then some (.trade t) else none
  | _ => none

/-- **The messages from a stream that a run passes on.** -/
def passed (stream : Kind) (steps : List Step) : List Message :=
  steps.filterMap (·.passed? stream)

theorem Step.passed?_eq (stream : Kind) (s : Step) :
    s.passed? stream = (s.taken? stream).filter (·.kind = stream) := by
  cases s with
  | routeDiff now m =>
      by_cases hstream : stream = .diff
      · subst hstream
        by_cases hkind : m.kind = .diff <;>
          simp [passed?, taken?, offered?, Option.filter_some, hkind]
      · simp [passed?, taken?, hstream]
  | routeSnapshot m =>
      by_cases hstream : stream = .snapshot
      · subst hstream
        by_cases hkind : m.kind = .snapshot <;>
          simp [passed?, taken?, offered?, Option.filter_some, hkind]
      · simp [passed?, taken?, hstream]
  | emitTrade now m =>
      by_cases hstream : stream = .trade
      · subst hstream
        cases m <;> simp [passed?, taken?, Option.filter_some]
      · cases m <;> simp [passed?, taken?, hstream]
  | _ => rfl

/-- **Exactly the messages of the right kind are passed on** among those that are taken. -/
theorem passed_eq_filter (stream : Kind) (steps : List Step) :
    passed stream steps = (taken stream steps).filter (·.kind = stream) := by
  rw [passed, taken, List.filter_filterMap]
  exact List.filterMap_congr fun s _ => s.passed?_eq stream

end Board

theorem faultOf?_eq_some_iff {result : Except Fault Offer} {fault : Fault} :
    faultOf? result = some fault ↔ result = .error fault := by
  cases result <;> simp [faultOf?]

namespace Tracker

/-- **What a reader does with a failing message:** the message is gone, and the reader pauses. -/
theorem perform_of_fault {t : Tracker} {now : Nat} {stream : Kind} {m : Message}
    {rest : List Message} {fault : Fault} (h : t.stream stream = m :: rest)
    (hfault : t.board.fault? stream (stream.step now m) = some fault) :
    t.perform now stream.reader = (t.setStream stream rest).pause now stream.reader fault := by
  cases stream with
  | diff =>
      simp only [Kind.step, Board.fault?, if_true] at hfault
      have hroute : t.board.routeDiff now m = (.error fault, t.board) :=
        Prod.ext (faultOf?_eq_some_iff.1 hfault) (Board.refuses_of_routeDiff hfault).1
      have hdiffs : t.diffs = m :: rest := h
      simp only [Kind.reader, perform, hdiffs, hroute]
      rfl
  | snapshot =>
      simp only [Kind.step, Board.fault?, if_true] at hfault
      have hroute : t.board.routeSnapshot m = (.error fault, t.board) :=
        Prod.ext (faultOf?_eq_some_iff.1 hfault) (Board.refuses_of_routeSnapshot hfault).1
      have hsnapshots : t.snapshots = m :: rest := h
      simp only [Kind.reader, perform, hsnapshots, hroute]
      rfl
  | trade =>
      simp only [Kind.step, Board.fault?, if_true] at hfault
      have hemit : t.board.emitTrade now m = (some fault, t.board) :=
        Prod.ext hfault (Board.refuses_of_emitTrade hfault).1
      have htrades : t.trades = m :: rest := h
      simp only [Kind.reader, perform, htrades, hemit]
      rfl

/-! ### Streams in order -/

/-- **What has been taken from a stream, against what was sent to it:** an open stream has the rest,
a closed one has nothing. -/
structure Follows (t : Tracker) (stream : Kind) (taken sent : List Message) : Prop where
  opened : t.isOpen = true → taken ++ t.stream stream = sent
  closed : t.isOpen = false → t.stream stream = [] ∧ taken <+: sent

/-- In any case it is what was sent first. -/
theorem Follows.isPrefix {t : Tracker} {stream : Kind} {taken sent : List Message}
    (h : t.Follows stream taken sent) : taken <+: sent := by
  cases hopen : t.isOpen with
  | true => exact ⟨_, h.opened hopen⟩
  | false => exact (h.closed hopen).2

theorem sent_of_isAside {a : Move} (h : a.IsAside) (stream : Kind) : a.sent stream = [] := by
  cases a with
  | send messages => exact h.elim
  | _ => rfl

theorem sends_or_sent_eq_nil (stream : Kind) (a : Move) :
    (∃ messages, a = .send messages) ∨ a.sent stream = [] := by
  cases a with
  | send messages => exact .inl ⟨messages, rfl⟩
  | _ => exact .inr rfl

/-- A move that sends nothing and leaves a stream as it is takes nothing from it. -/
theorem taken_eq_nil_of_stream_eq {t : Tracker} {stream : Kind} {a : Move}
    (hsent : a.sent stream = []) (hstream : (t.move a).stream stream = t.stream stream) :
    Board.taken stream (t.stepsOf a) = [] := by
  have hlength := (taken_stepsOf_append_stream stream t a).length_le
  rw [hstream, hsent, List.append_nil, List.length_append] at hlength
  exact List.eq_nil_of_length_eq_zero (by omega)

theorem stream_move_of_isAside (t : Tracker) {a : Move} (h : a.IsAside) (stream : Kind) :
    (t.move a).stream stream = t.stream stream := by
  obtain ⟨_, _, _, _, _, hframe⟩ := move_frame_of_isAside t h
  rw [hframe]
  cases stream <;> rfl

/-- Streams do not open again. -/
theorem isOpen_of_move {t : Tracker} {a : Move} (h : (t.move a).isOpen = true) :
    t.isOpen = true := by
  unfold isOpen at h ⊢
  rw [phase_move] at h
  cases hphase : t.phase with
  | stopped ran =>
      rw [hphase] at h
      cases ran with
      | false => rfl
      | true => cases a <;> simp [Phase.after] at h
  | dropped =>
      rw [hphase] at h
      cases a <;> simp [Phase.after] at h
  | _ => rfl

/-- A stop and a drop close them, and take nothing from them. -/
theorem eq_of_closes {t : Tracker} {a : Move} (hopen : t.isOpen = true)
    (hclosed : (t.move a).isOpen = false) : a = .stop ∧ t.phase = .running ∨ a = .drop := by
  unfold isOpen at hopen hclosed
  rw [phase_move] at hclosed
  cases hphase : t.phase <;> rw [hphase] at hopen hclosed <;> cases a <;> simp_all [Phase.after]

/-- **What a move takes from an open stream and what it leaves there** is what was there and what is
sent. -/
theorem taken_append_stream_of_open {t : Tracker} {a : Move} (hopen : (t.move a).isOpen = true)
    (stream : Kind) :
    Board.taken stream (t.stepsOf a) ++ (t.move a).stream stream =
      t.stream stream ++ a.sent stream := by
  by_cases haside : a.IsAside
  · have hsent := sent_of_isAside haside stream
    have hstream := stream_move_of_isAside t haside stream
    rw [taken_eq_nil_of_stream_eq hsent hstream, hstream, hsent, List.append_nil, List.nil_append]
  · have hbefore := isOpen_of_move hopen
    cases a with
    | perform now task =>
        simp only [move, stepsOf, Move.sent, List.append_nil]
        split
        · exact taken_stepsOfTask_append_stream stream { t with ready := t.ready.erase task } now
            task
        · rfl
    | fire now => exact (List.append_nil _).symm
    | start now =>
        simp only [move, start, stepsOf, Move.sent, List.append_nil]
        cases t.phase <;> rfl
    | stop =>
        simp only [move, stop, stepsOf, Move.sent, List.append_nil] at hopen ⊢
        cases hphase : t.phase with
        | running =>
            rw [hphase] at hopen
            cases hopen
        | _ => rfl
    | drop => cases hopen
    | send messages =>
        simp only [move, stepsOf, Move.sent, send]
        rw [if_pos hbefore, stream_foldl_push]
        rfl
    | _ => exact absurd trivial haside

/-- **A move keeps a stream in order.** -/
theorem Follows.move {t : Tracker} {stream : Kind} {taken sent : List Message}
    (h : t.Follows stream taken sent) (a : Move) :
    (t.move a).Follows stream (taken ++ Board.taken stream (t.stepsOf a))
      (sent ++ a.sent stream) := by
  refine ⟨fun hopen => ?_, fun hclosed => ?_⟩
  · rw [List.append_assoc, taken_append_stream_of_open hopen, ← List.append_assoc,
      h.opened (isOpen_of_move hopen)]
  · have hprefix : taken <+: sent ++ a.sent stream := h.isPrefix.trans (List.prefix_append _ _)
    cases hbefore : t.isOpen with
    | true =>
        rcases eq_of_closes hbefore hclosed with ⟨rfl, hrunning⟩ | rfl
        · have hnone : Board.taken stream (t.stepsOf .stop) = [] := by
            rw [stepsOf, hrunning]
            rfl
          rw [hnone, List.append_nil]
          refine ⟨?_, hprefix⟩
          rw [Tracker.move, stop, hrunning]
          cases stream <;> rfl
        · refine ⟨by cases stream <;> rfl, ?_⟩
          rw [show Board.taken stream (t.stepsOf .drop) = [] from rfl, List.append_nil]
          exact hprefix
    | false =>
        obtain ⟨hempty, -⟩ := h.closed hbefore
        have hnothing : Board.taken stream (t.stepsOf a) = [] ∧
            (t.move a).stream stream = [] := by
          rcases sends_or_sent_eq_nil stream a with ⟨messages, rfl⟩ | hsent
          · refine ⟨rfl, ?_⟩
            rw [Tracker.move, send, hbefore]
            exact hempty
          · have hsub := taken_stepsOf_append_stream stream t a
            rw [hempty, hsent] at hsub
            exact List.append_eq_nil_iff.1 (List.sublist_nil.1 hsub)
        rw [hnothing.1, List.append_nil]
        exact ⟨hnothing.2, hprefix⟩

/-- **Streams are in order at any time:** no message is skipped, and none is taken twice. -/
theorem follows_of_moves {config : Config} {directory : Directory} {t : Tracker}
    (h : new config directory = .ok t) (stream : Kind) (as : List Move) :
    (t.moves as).Follows stream (Board.taken stream (t.trace as)) (sent stream as) := by
  induction as using List.reverseRecOn with
  | nil =>
      rw [moves_nil, eq_of_new h]
      exact ⟨fun _ => by cases stream <;> rfl, nofun⟩
  | append_singleton as a ih =>
      rw [moves_concat, trace_concat, Board.taken_append, sent_concat]
      exact ih.move a

/-! ### Asleep -/

/-- Nobody ends the tracker in this move, and no timer fires that is due at this time or later. -/
def Move.IsBefore (due : Nat) : Move → Prop
  | .stop | .drop => False
  | .fire now => now < due
  | _ => True

/-- A timer lasts until its time comes. -/
theorem mem_timers_move {t : Tracker} {timer : Nat × Task} (h : timer ∈ t.timers) {a : Move}
    (ha : a.IsBefore timer.1) : timer ∈ (t.move a).timers := by
  by_cases haside : a.IsAside
  · obtain ⟨_, _, _, _, _, hframe⟩ := move_frame_of_isAside t haside
    rw [hframe]
    exact h
  · cases a with
    | perform now task =>
        simp only [move]
        split
        · obtain ⟨late, htimers, -⟩ :=
            sleeps_perform { t with ready := t.ready.erase task } now task
          rw [htimers]
          exact List.mem_append_left _ h
        · exact h
    | fire now => exact List.mem_filter.2 ⟨h, decide_eq_true ha⟩
    | start now =>
        simp only [move, start]
        cases t.phase <;> exact h
    | send messages =>
        obtain ⟨_, _, _, _, hsend⟩ := send_frame t messages
        rw [move, hsend]
        exact h
    | stop => exact ha.elim
    | drop => exact ha.elim
    | _ => exact absurd trivial haside

section Asleep

variable {t : Tracker} {stream : Kind} {due : Nat}

/-- A reader that sleeps is not ready, and it belongs to a running tracker. -/
theorem Orderly.of_asleep (h : t.Orderly) (hasleep : (due, stream.reader) ∈ t.timers) :
    stream.reader ∉ t.ready ∧ t.phase = .running := by
  have hcount := h.readers stream
  rw [scheduled, List.count_append] at hcount
  have hsome : 0 < (t.timers.map (·.2)).count stream.reader :=
    List.count_pos_iff.2 (List.mem_map.2 ⟨_, hasleep, rfl⟩)
  split at hcount
  case isTrue hrunning => exact ⟨List.count_eq_zero.1 (by omega), hrunning⟩
  case isFalse => omega

/-- Only a ready reader takes messages. -/
theorem taken_eq_nil_of_not_ready (h : stream.reader ∉ t.ready) (a : Move) :
    Board.taken stream (t.stepsOf a) = [] := by
  by_cases haside : a.IsAside
  · exact taken_eq_nil_of_stream_eq (sent_of_isAside haside stream)
      (stream_move_of_isAside t haside stream)
  · cases a with
    | perform now task =>
        refine taken_eq_nil_of_stream_eq rfl ?_
        simp only [move]
        split
        case isFalse => rfl
        case isTrue htask =>
          have hother : task ≠ stream.reader := by
            rintro rfl
            exact h htask
          rw [stream_perform_of_ne hother]
          cases stream <;> rfl
    | start now =>
        simp only [stepsOf]
        cases t.phase <;> rfl
    | stop =>
        simp only [stepsOf]
        cases t.phase <;> rfl
    | fire now => rfl
    | drop => rfl
    | send messages => rfl
    | _ => exact absurd trivial haside

/-- **A reader that sleeps takes nothing,** and its stream grows by what is sent to it. -/
theorem Orderly.asleep_move (h : t.Orderly) (hasleep : (due, stream.reader) ∈ t.timers) {a : Move}
    (ha : a.IsBefore due) :
    Board.taken stream (t.stepsOf a) = [] ∧
      (t.move a).stream stream = t.stream stream ++ a.sent stream := by
  obtain ⟨hready, -⟩ := h.of_asleep hasleep
  have hrunning : (t.move a).phase = .running :=
    ((h.move a).of_asleep (mem_timers_move hasleep ha)).2
  have hopen : (t.move a).isOpen = true := by rw [isOpen, hrunning]
  have htaken := taken_eq_nil_of_not_ready hready a
  have hstream := taken_append_stream_of_open hopen stream
  rw [htaken, List.nil_append] at hstream
  exact ⟨htaken, hstream⟩

/-- So it is as long as it sleeps. -/
theorem Orderly.asleep_moves (h : t.Orderly) (hasleep : (due, stream.reader) ∈ t.timers)
    {as : List Move} (has : ∀ a ∈ as, a.IsBefore due) :
    (t.moves as).Orderly ∧ (due, stream.reader) ∈ (t.moves as).timers ∧
      Board.taken stream (t.trace as) = [] ∧
      (t.moves as).stream stream = t.stream stream ++ sent stream as := by
  induction as using List.reverseRecOn with
  | nil => exact ⟨h, hasleep, rfl, (List.append_nil _).symm⟩
  | append_singleton as a ih =>
      obtain ⟨horderly, hasleep', htaken, hstream⟩ :=
        ih fun a ha => has a (List.mem_append_left _ ha)
      have ha := has a (List.mem_append_right _ (List.mem_singleton_self a))
      obtain ⟨htaken', hstream'⟩ := horderly.asleep_move hasleep' ha
      rw [moves_concat, trace_concat, Board.taken_append, htaken, htaken', hstream', hstream,
        sent_concat, List.append_assoc]
      exact ⟨horderly.move a, mem_timers_move hasleep' ha, rfl, rfl⟩

end Asleep

/-! ### Sending to a reader that sleeps -/

/-- **Sends to the stream of a scheduled reader are only buffered.** -/
theorem foldl_push_of_scheduled {t : Tracker} {stream : Kind} (h : stream.reader ∈ t.scheduled)
    (ms : List Message) :
    (ms.map (stream, ·)).foldl (fun t m => t.push m.1 m.2) t =
      t.setStream stream (t.stream stream ++ ms) := by
  induction ms generalizing t with
  | nil => rw [List.append_nil, setStream_stream]; rfl
  | cons m ms ih =>
      have hpush : t.push stream m = t.setStream stream (t.stream stream ++ [m]) := by
        rw [push_eq, wake_eq, scheduled_setStream, if_pos h, ite_self]
      rw [List.map_cons, List.foldl_cons, hpush, ih (by rwa [scheduled_setStream]),
        stream_setStream, if_pos rfl, setStream_setStream, List.append_assoc]
      rfl

/-! ### One message after the other -/

/-- What a task logs does not concern what is registered. -/
theorem find?_takeAll_faultSteps (b : Board) (task : Task) (config : Config) (fault? : Option Fault)
    (name : String) : (b.takeAll (task.faultSteps config fault?)).find? name = b.find? name := by
  cases fault? <;> rfl

/-- A worker that has handled a message has the next one before it. -/
theorem input_perform_worker {t : Tracker} {now : Nat} {instrument : String} {serial : Nat}
    {m : Message} {ms : List Message} (h : t.input (.worker instrument serial) = m :: ms) :
    (t.perform now (.worker instrument serial)).input (.worker instrument serial) = ms := by
  obtain ⟨r, hr, hserial, hwaits⟩ := input_worker_ne_nil_iff.1 (h ▸ List.cons_ne_nil m ms)
  have hinbox : r.inbox = m :: ms := by simpa [input, hr, hserial] using h
  have hfind : (t.board.work now instrument).2.find? instrument =
      some ({ r with inbox := ms }.after t.board.config.statsInterval (now, m)) := by
    rw [Board.find?_congr (Board.registry_work hr hinbox), Board.find?_setRegistration, if_pos rfl,
      hr]
    rfl
  obtain ⟨_, _, hafter⟩ := afterMessage_frame { t with board := (t.board.work now instrument).2 }
    now (.worker instrument serial) (t.board.work now instrument).1
  obtain ⟨_, _, _, hkept⟩ :=
    { r with inbox := ms }.after_frame t.board.config.statsInterval (now, m)
  simp only [perform, hr]
  rw [if_pos ⟨hserial, hwaits⟩, hafter]
  simp only [input, find?_takeAll_faultSteps, hfind, hkept]
  exact if_pos hserial

/-- **A task that acts has taken the first of the messages that wait for it.** -/
theorem input_perform {t : Tracker} {now : Nat} {task : Task} {m : Message} {ms : List Message}
    (h : t.input task = m :: ms) : (t.perform now task).input task = ms := by
  obtain ⟨_, _, _, _, hframe⟩ := perform_frame t now task
  cases task with
  | worker instrument serial => exact input_perform_worker h
  | refresher => cases h
  | tradeEmitter =>
      have htrades : t.trades = m :: ms := h
      rw [hframe, input]
      simp [htrades]
  | diffRouter =>
      have hdiffs : t.diffs = m :: ms := h
      rw [hframe, input]
      simp [hdiffs]
  | snapshotRouter =>
      have hsnapshots : t.snapshots = m :: ms := h
      rw [hframe, input]
      simp [hsnapshots]

/-- So has a reader from its stream. -/
theorem taken_of_ready {t : Tracker} {stream : Kind} (h : stream.reader ∈ t.ready) {m : Message}
    {ms : List Message} (hstream : t.stream stream = m :: ms) (now : Nat) :
    Board.taken stream (t.stepsOf (.perform now stream.reader)) = [m] := by
  have htaken := taken_stepsOfTask_append_stream stream t now stream.reader
  have hrest : (t.perform now stream.reader).stream stream = ms := by
    rw [← input_reader]
    exact input_perform (m := m) (by rw [input_reader, hstream])
  rw [hrest, hstream, ← List.singleton_append] at htaken
  rw [stepsOf, if_pos h]
  exact List.append_cancel_right htaken

/-! ### The pause -/

/-- **The reader of a stream pauses** with these messages before it.  As long as it sleeps it takes
none, and what is sent to its stream is put behind them and changes nothing else.  When its time has
come it is ready, and the first of them is what it takes next. -/
structure Pauses (t : Tracker) (stream : Kind) (due : Nat) (rest : List Message) : Prop where
  takes_nothing : ∀ as : List Move, (∀ a ∈ as, a.IsBefore due) →
    Board.taken stream (t.trace as) = [] ∧ (t.moves as).stream stream = rest ++ sent stream as
  buffers : ∀ as : List Move, (∀ a ∈ as, a.IsBefore due) → ∀ ms : List Message,
    (t.moves as).move (.send (ms.map (stream, ·))) =
      (t.moves as).setStream stream (rest ++ sent stream as ++ ms)
  goes_on : ∀ as : List Move, (∀ a ∈ as, a.IsBefore due) → ∀ now, due ≤ now →
    let t' := (t.moves as).move (.fire now)
    stream.reader ∈ t'.ready ∧ t'.stream stream = rest ++ sent stream as ∧
      ∀ m ms, rest ++ sent stream as = m :: ms → ∀ now',
        Board.taken stream (t'.stepsOf (.perform now' stream.reader)) = [m]

/-- **A reader that sleeps pauses.** -/
theorem pauses_of_asleep {t : Tracker} {stream : Kind} {due : Nat} {rest : List Message}
    (h : t.Orderly) (hasleep : (due, stream.reader) ∈ t.timers) (hrest : t.stream stream = rest) :
    t.Pauses stream due rest := by
  subst hrest
  refine ⟨fun as has => ?_, fun as has ms => ?_, fun as has now hnow => ?_⟩
  · exact (h.asleep_moves hasleep has).2.2
  · obtain ⟨horderly, hasleep', -, hstream⟩ := h.asleep_moves hasleep has
    have hopen : (t.moves as).isOpen = true := by rw [isOpen, (horderly.of_asleep hasleep').2]
    have hscheduled : stream.reader ∈ (t.moves as).scheduled :=
      mem_scheduled_iff.2 (.inr ⟨due, hasleep'⟩)
    rw [move, send, if_pos hopen, foldl_push_of_scheduled hscheduled, hstream]
  · obtain ⟨-, hasleep', -, hstream⟩ := h.asleep_moves hasleep has
    have hready : stream.reader ∈ ((t.moves as).move (.fire now)).ready :=
      mem_ready_fire hasleep' hnow
    have hstream' : ((t.moves as).move (.fire now)).stream stream =
        t.stream stream ++ sent stream as := by
      rw [← hstream]
      cases stream <;> rfl
    exact ⟨hready, hstream', fun m ms hnext now' =>
      taken_of_ready hready (hstream'.trans hnext) now'⟩

/-! ### The cost of a failing message -/

theorem pause_of_delay_zero {t : Tracker} (h : t.board.config.retryDelay = 0) (now : Nat)
    (task : Task) (fault : Fault) :
    t.pause now task fault =
      (t.record [.failed task.role fault t.board.config.retryDelay]).goOn task :=
  if_pos h

theorem pause_of_delay_pos {t : Tracker} (h : 0 < t.board.config.retryDelay) (now : Nat)
    (task : Task) (fault : Fault) :
    t.pause now task fault =
      (t.record [.failed task.role fault t.board.config.retryDelay]).sleep
        (now + t.board.config.retryDelay) task :=
  if_neg (Nat.pos_iff_ne_zero.1 h)

theorem board_pause (t : Tracker) (now : Nat) (task : Task) (fault : Fault) :
    (t.pause now task fault).board =
      t.board.record [.failed task.role fault t.board.config.retryDelay] := by
  dsimp only [pause]
  split <;> rfl

theorem stream_pause (t : Tracker) (now : Nat) (task : Task) (fault : Fault) (stream : Kind) :
    (t.pause now task fault).stream stream = t.stream stream := by
  dsimp only [pause]
  split <;> cases stream <;> rfl

/-- **What a failing message costs the reader that meets it:** the message and a pause. -/
theorem pauses_of_fails {t : Tracker} {now : Nat} {stream : Kind} {m : Message}
    {rest : List Message} (horderly : t.Orderly) (hready : stream.reader ∈ t.ready)
    (hstream : t.stream stream = m :: rest) (hfails : t.board.Fails stream m) :
    ∃ fault, t.board.Refuses stream m fault ∧
      let t' := t.move (.perform now stream.reader)
      t' = ({ t with ready := t.ready.erase stream.reader }.setStream stream rest).pause now
        stream.reader fault ∧
      t'.board = t.board.record [.failed stream.reader.role fault t.board.config.retryDelay] ∧
      (t.board.config.retryDelay = 0 → stream.reader ∈ t'.ready ∧ t'.stream stream = rest) ∧
      (0 < t.board.config.retryDelay →
        t'.Pauses stream (now + t.board.config.retryDelay) rest) := by
  obtain ⟨fault, hfault⟩ := (Board.fails_iff now).1 hfails
  obtain ⟨-, m', hm', hrefuses⟩ := Board.refuses_of_fault? hfault
  have hsame : m' = m := by
    cases stream <;> exact (Option.some.inj hm').symm
  subst hsame
  have hmove : t.move (.perform now stream.reader) =
      ({ t with ready := t.ready.erase stream.reader }.setStream stream rest).pause now
        stream.reader fault := by
    rw [move, if_pos hready]
    refine perform_of_fault (m := m') ?_ hfault
    cases stream <;> exact hstream
  have hboard : ({ t with ready := t.ready.erase stream.reader }.setStream stream rest).board =
      t.board := board_setStream _ _ _
  have hrest : (t.move (.perform now stream.reader)).stream stream = rest := by
    rw [hmove, stream_pause, stream_setStream, if_pos rfl]
  refine ⟨fault, hrefuses, hmove, ?_, fun hzero => ⟨?_, hrest⟩, fun hdelay => ?_⟩
  · rw [hmove, board_pause, hboard]
  · rw [hmove, pause_of_delay_zero (by rw [hboard]; exact hzero)]
    exact List.mem_cons_self
  · refine pauses_of_asleep (horderly.move _) ?_ hrest
    rw [hmove, pause_of_delay_pos (by rw [hboard]; exact hdelay), hboard]
    exact List.mem_append_right _ (List.mem_singleton_self _)

/-- **A failing message costs only itself.**  After any moves, the reader that meets one logs the
fault and pauses; the messages passed on are those of the right kind among the messages taken, and
these are what was sent first; and meanwhile the others go on, each with what waits for it. -/
theorem failing_message_costs_itself {config : Config} {directory : Directory} {t₀ : Tracker}
    (h : new config directory = .ok t₀) (as : List Move) (stream : Kind) :
    let t := t₀.moves as
    (∀ now m rest, stream.reader ∈ t.ready → t.stream stream = m :: rest →
      t.board.Fails stream m →
      ∃ fault, t.board.Refuses stream m fault ∧
        let t' := t.move (.perform now stream.reader)
        t' = ({ t with ready := t.ready.erase stream.reader }.setStream stream rest).pause now
          stream.reader fault ∧
        t'.board = t.board.record [.failed stream.reader.role fault config.retryDelay] ∧
        (config.retryDelay = 0 → stream.reader ∈ t'.ready ∧ t'.stream stream = rest) ∧
        (0 < config.retryDelay → t'.Pauses stream (now + config.retryDelay) rest)) ∧
    (Board.passed stream (t₀.trace as) =
        (Board.taken stream (t₀.trace as)).filter (·.kind = stream) ∧
      t.Follows stream (Board.taken stream (t₀.trace as)) (sent stream as)) ∧
    t.Attentive ∧
    ∀ now task m ms, task ∈ t.ready → t.input task = m :: ms →
      (t.move (.perform now task)).input task = ms := by
  intro t
  have hconfig : t.board.config = config := config_moves_of_new h as
  refine ⟨fun now m rest hready hstream hfails => ?_,
    ⟨Board.passed_eq_filter stream _, follows_of_moves h stream as⟩, attentive_of_moves h as,
    fun now task m ms hready hinput => ?_⟩
  · rw [← hconfig]
    exact pauses_of_fails (orderly_of_moves h as) hready hstream hfails
  · rw [move, if_pos hready]
    refine input_perform (m := m) ?_
    cases task <;> exact hinput

/-- A trade in the diff stream has cost its pause already, and now a diff meets a worker that is
gone: the router pauses again, with the last diff before it. -/
theorem failing_message_costs_itself_after_another :
    let config : Config := { retryDelay := 5 }
    let listing : Listing := { instrument := "A", timestamp := 0, book := .empty "A" }
    let directory : Directory := { catalog := .ofListings [listing] }
    let trade : Trade := { instrument := "A", timestamp := 0, price := 1, size := 1, side := .buy }
    let diff (name : String) (id : UInt64) : Message :=
      .diff { instrument := name, updateId := id, timestamp := 0 }
    let t₀ : Tracker := { board := .start config, directory }
    let as : List Move := [.start 0, .refreshDetached 0,
      .send [(.diff, .trade trade), (.diff, diff "A" 1), (.diff, diff "B" 2)],
      .perform 0 .diffRouter, .fire 5]
    let t := t₀.moves as
    let t' := t.move (.perform 5 .diffRouter)
    new config directory = .ok t₀ ∧ .diffRouter ∈ t.ready ∧
    t.stream .diff = [diff "A" 1, diff "B" 2] ∧ t.board.Fails .diff (diff "A" 1) ∧
    t'.board.totals = t.board.totals ∧ t'.Pauses .diff 10 [diff "B" 2] ∧
    Board.taken .diff (t₀.trace as) = [.trade trade] ∧
    Board.passed .diff (t₀.trace as) = [] := by
  intro config listing directory trade diff t₀ as t t'
  have hnew : new config directory = .ok t₀ := rfl
  have hline : t.ready = [.tradeEmitter, .snapshotRouter, .refresher, .diffRouter] := by
    unfold t t₀
    cbv
  have hready : .diffRouter ∈ t.ready := by simp [hline]
  have hstream : t.stream .diff = [diff "A" 1, diff "B" 2] := by
    unfold t t₀
    cbv
  have hfails : t.board.Fails .diff (diff "A" 1) := by
    have hdead : (t.board.find? "A").map (fun r => (r.live, r.book.uid)) = some (false, 0) := by
      unfold t t₀
      cbv
    obtain ⟨r, hr, hlive⟩ := Option.map_eq_some_iff.1 hdead
    obtain ⟨hlive, huid⟩ := Prod.mk.inj hlive
    refine .inr ⟨by simp, r, hr, hlive, fun _ => ?_⟩
    rw [huid]
    decide
  have htaken : Board.taken .diff (t₀.trace as) = [.trade trade] := by
    unfold t₀
    cbv
  have hcosts := failing_message_costs_itself hnew as .diff
  obtain ⟨fault, -, hcost⟩ := hcosts.1 5 (diff "A" 1) [diff "B" 2] hready hstream hfails
  have hboard : t'.board = t.board.record [.failed .diffRouter fault 5] := hcost.2.1
  have hpauses : t'.Pauses .diff 10 [diff "B" 2] := hcost.2.2.2 (by decide)
  have htotals : t'.board.totals = t.board.totals := by rw [hboard, Board.totals_record]
  have hpassed := hcosts.2.1.1
  rw [htaken] at hpassed
  exact ⟨hnew, hready, hstream, hfails, htotals, hpauses, htaken, hpassed⟩

/-- A diff that is not newer than the book costs no pause, even if the worker is dead: it is turned
away and counted before anybody asks for the worker. -/
theorem old_diff_for_dead_worker_is_counted :
    let config : Config := { retryDelay := 5 }
    let listing : Listing :=
      { instrument := "A", timestamp := 0, book := { Book.empty "A" with uid := 10 } }
    let directory : Directory := { catalog := .ofListings [listing] }
    let old : Message := .diff { instrument := "A", updateId := 5, timestamp := 0 }
    let t₀ : Tracker := { board := .start config, directory }
    let t := t₀.moves [.start 0, .refreshDetached 0, .send [(.diff, old)]]
    let t' := t.move (.perform 0 .diffRouter)
    new config directory = .ok t₀ ∧ (t.board.find? "A").map (·.live) = some false ∧
    .diffRouter ∈ t.ready ∧ t.stream .diff = [old] ∧
    t'.board.totals.diffsRejected = t.board.totals.diffsRejected + 1 ∧ .diffRouter ∈ t'.ready := by
  intro config listing directory old t₀ t t'
  have hdead : (t.board.find? "A").map (·.live) = some false := by
    unfold t t₀
    cbv
  have hline : t.ready = [.tradeEmitter, .diffRouter, .snapshotRouter, .refresher] := by
    unfold t t₀
    cbv
  have hstream : t.stream .diff = [old] := by
    unfold t t₀
    cbv
  have hline' : t'.ready = [.diffRouter, .tradeEmitter, .snapshotRouter, .refresher] := by
    unfold t' t t₀
    cbv
  have hcounted : t'.board.totals.diffsRejected = t.board.totals.diffsRejected + 1 := by
    unfold t' t t₀
    cbv
  exact ⟨rfl, hdead, by simp [hline], hstream, hcounted, by simp [hline']⟩

end Tracker

end MarketDepth
