/-
**Nobody is forgotten.**

A task that finds nothing to read is not scheduled any more, so it depends on others to be woken.
They do it: whoever puts a message where a task reads also wakes that task.  Hence a task for which
messages wait is always scheduled, in whatever order tasks act and whatever happens outside; and a
refresher that is not scheduled waits for a turn that a caller has.

Main definitions:

* `MarketDepth.Tracker.Runs` — the tasks that a tracker has at this time;
* `MarketDepth.Tracker.Attentive` — **tasks for which messages wait are scheduled.**

Main results:

* `MarketDepth.Board.waiting_of_take` — where a message comes from that waits in a queue;
* `MarketDepth.Tracker.attentive_of_moves` — **nobody is forgotten at any time**;
* `MarketDepth.Tracker.Orderly.refresher_scheduled` — neither is the refresher.
-/

import MarketDepth.Proofs.Scheduled
import MarketDepth.Proofs.Stopping

set_option relaxedAutoImplicit false
set_option autoImplicit false

namespace MarketDepth

/-! ### Messages in queues -/

namespace Board

theorem exists_offered_of_queued {b : Board} {name : String} {r : Registration} {s : Step}
    {m : Message} (h : b.fateAt? name r s = some (.queued m)) : s.offered? ≠ none := by
  cases s with
  | routeDiff now m' =>
      intro hnone
      have hkind : m'.kind ≠ .diff := by simpa [Step.offered?] using hnone
      simp [fateAt?, routeDiff_of_kind_ne hkind, Fate.ofAnswer?] at h
  | routeSnapshot m' =>
      intro hnone
      have hkind : m'.kind ≠ .snapshot := by simpa [Step.offered?] using hnone
      simp [fateAt?, routeSnapshot_of_kind_ne hkind, Fate.ofAnswer?] at h
  | work now worker => simp [fateAt?] at h
  | _ => cases h

/-- **A message waits in a queue** because one has waited there before, or because it has just been
queued.  A new registration has an empty queue, and so has one whose worker has ended. -/
theorem waiting_of_take {b : Board} {s : Step} {name : String} {r' : Registration}
    (h : (b.take s).find? name = some r') (hwaits : r'.inbox ≠ []) :
    ∃ r, b.find? name = some r ∧ r.serial = r'.serial ∧
      (r.inbox ≠ [] ∨ ∃ m, b.fateAt? name r s = some (.queued m)) := by
  rcases find?_take_cases h with ⟨r, hr, hchange⟩ | ⟨_, _, _, _, -, l, -, -, -, -, hstart⟩
  · refine ⟨r, hr, hchange.serial_eq.symm, ?_⟩
    generalize b.fateAt? name r s = fate at hchange
    cases hchange with
    | queue => exact .inr ⟨_, rfl⟩
    | handle next => exact .inl (by simp [next])
    | kill => exact absurd rfl hwaits
    | _ => exact .inl hwaits
  · rw [hstart] at hwaits
    exact absurd rfl hwaits

/-- A message that waits after steps that offer none has waited before. -/
theorem waiting_of_takeAll {b : Board} {steps : List Step}
    (hoffers : ∀ s ∈ steps, s.offered? = none) {name : String} {r' : Registration}
    (h : (b.takeAll steps).find? name = some r') (hwaits : r'.inbox ≠ []) :
    ∃ r, b.find? name = some r ∧ r.serial = r'.serial ∧ r.inbox ≠ [] := by
  induction steps generalizing b with
  | nil => exact ⟨r', h, rfl, hwaits⟩
  | cons s steps ih =>
      rw [takeAll_cons] at h
      obtain ⟨r₁, hr₁, hserial₁, hwaits₁⟩ :=
        ih (fun s' hs' => hoffers s' (List.mem_cons_of_mem s hs')) h
      obtain ⟨r, hr, hserial, hwaits | ⟨m, hqueued⟩⟩ := waiting_of_take hr₁ hwaits₁
      · exact ⟨r, hr, hserial.trans hserial₁, hwaits⟩
      · exact absurd (hoffers s List.mem_cons_self) (exists_offered_of_queued hqueued)

end Board

namespace Tracker

/-! ### Who offers messages -/

theorem offered?_of_mem_faultSteps {task : Task} {config : Config} {fault? : Option Fault}
    {s : Board.Step} (h : s ∈ task.faultSteps config fault?) : s.offered? = none := by
  obtain ⟨fault, -, rfl⟩ := List.mem_map.1 h
  rfl

theorem offered?_of_mem_concludeSteps {t : Tracker} {now : Nat} {live : Bool} {seen : List String}
    {s : Board.Step} (h : s ∈ t.concludeSteps now live seen) : s.offered? = none := by
  unfold concludeSteps at h
  split at h
  · rw [List.mem_singleton.1 h]
    rfl
  · cases h

theorem offered?_of_mem_finishSteps {t : Tracker} {now : Nat} {seen : List String}
    {s : Board.Step} (h : s ∈ t.finishSteps now seen) : s.offered? = none := by
  unfold finishSteps at h
  split at h
  · rw [List.mem_singleton.1 h]
    rfl
  · exact offered?_of_mem_faultSteps h

/-- **Only the routers offer messages.** -/
theorem offered?_of_mem_stepsOfTask {t : Tracker} {now : Nat} {task : Task}
    (hdiff : task ≠ .diffRouter) (hsnapshot : task ≠ .snapshotRouter) {s : Board.Step}
    (h : s ∈ t.stepsOfTask now task) : s.offered? = none := by
  have hbegin : s ∈ t.beginSteps now → s.offered? = none := by
    intro hs
    unfold beginSteps at hs
    split at hs
    · exact offered?_of_mem_finishSteps hs
    · cases hs
  cases task with
  | diffRouter => exact absurd rfl hdiff
  | snapshotRouter => exact absurd rfl hsnapshot
  | tradeEmitter =>
      simp only [stepsOfTask] at h
      split at h
      · cases h
      · rcases List.mem_cons.1 h with rfl | h
        · rfl
        · exact offered?_of_mem_faultSteps h
  | refresher =>
      simp only [stepsOfTask] at h
      split at h
      · exact offered?_of_mem_finishSteps h
      · exact hbegin h
      · cases h
      · exact hbegin h
  | worker instrument serial =>
      simp only [stepsOfTask] at h
      split at h
      · cases h
      · split at h
        · rcases List.mem_cons.1 h with rfl | h
          · rfl
          · exact offered?_of_mem_faultSteps h
        · cases h

/-- Nothing outside offers messages to queues. -/
theorem offered?_of_mem_stepsOf {t : Tracker} {a : Move} (ha : ∀ now task, a ≠ .perform now task)
    {s : Board.Step} (h : s ∈ t.stepsOf a) : s.offered? = none := by
  cases a with
  | perform now task => exact absurd rfl (ha now task)
  | start now =>
      simp only [stepsOf] at h
      split at h
      · simp only [List.mem_cons, List.not_mem_nil, or_false] at h
        rcases h with rfl | rfl <;> rfl
      · cases h
  | stop =>
      simp only [stepsOf] at h
      split at h
      · rw [List.mem_singleton.1 h]
        rfl
      · simp only [List.mem_cons, List.not_mem_nil, or_false] at h
        rcases h with rfl | rfl <;> rfl
      · cases h
  | conclude now caller =>
      simp only [stepsOf] at h
      split at h
      · split at h
        · exact offered?_of_mem_concludeSteps h
        · cases h
      · cases h
  | refreshDetached now =>
      simp only [stepsOf] at h
      split at h
      · exact offered?_of_mem_concludeSteps h
      · cases h
  | takeResyncs =>
      simp only [stepsOf] at h
      split at h
      · rw [List.mem_singleton.1 h]
        rfl
      · cases h
  | drop => rw [List.mem_singleton.1 h]; rfl
  | loseWorker instrument => rw [List.mem_singleton.1 h]; rfl
  | takeLog => rw [List.mem_singleton.1 h]; rfl
  | _ => cases h

/-! ### Attention -/

/-- Only its reader takes from a stream. -/
theorem stream_perform_of_ne {t : Tracker} {now : Nat} {task : Task} {stream : Kind}
    (h : task ≠ stream.reader) : (t.perform now task).stream stream = t.stream stream := by
  obtain ⟨_, _, _, _, hframe⟩ := perform_frame t now task
  rw [hframe]
  cases stream <;> simp only [Kind.reader] at h <;> simp [Tracker.stream, h]

/-- The tracker has this task: it runs, or the task is a worker. -/
def Runs (t : Tracker) (task : Task) : Prop :=
  task.role = .worker ∨ t.phase = .running

/-- **Every task for which messages wait is scheduled.** -/
def Attentive (t : Tracker) : Prop :=
  ∀ task, t.Runs task → t.input task ≠ [] → task ∈ t.scheduled

theorem input_worker_ne_nil_iff {t : Tracker} {instrument : String} {serial : Nat} :
    t.input (.worker instrument serial) ≠ [] ↔
      ∃ r, t.board.find? instrument = some r ∧ r.serial = serial ∧ r.inbox ≠ [] := by
  simp only [input]
  cases t.board.find? instrument with
  | none => simp
  | some r => simp

/-- It is enough to look at the three streams and at the queues. -/
theorem attentive_iff {t : Tracker} :
    t.Attentive ↔
      (t.phase = .running → ∀ stream : Kind, t.stream stream ≠ [] →
        stream.reader ∈ t.scheduled) ∧
      ∀ name r, t.board.find? name = some r → r.inbox ≠ [] →
        .worker name r.serial ∈ t.scheduled := by
  constructor
  · intro h
    refine ⟨fun hrunning stream hstream => ?_, fun name r hr hwaits => ?_⟩
    · exact h stream.reader (.inr hrunning) (by rwa [input_reader])
    · exact h (.worker name r.serial) (.inl rfl) (input_worker_ne_nil_iff.2 ⟨r, hr, rfl, hwaits⟩)
  · rintro ⟨hreaders, hworkers⟩ task hruns hinput
    cases task with
    | tradeEmitter => exact hreaders (hruns.resolve_left (by simp [Task.role])) .trade hinput
    | diffRouter => exact hreaders (hruns.resolve_left (by simp [Task.role])) .diff hinput
    | snapshotRouter => exact hreaders (hruns.resolve_left (by simp [Task.role])) .snapshot hinput
    | refresher => exact absurd rfl hinput
    | worker instrument serial =>
        obtain ⟨r, hr, rfl, hwaits⟩ := input_worker_ne_nil_iff.1 hinput
        exact hworkers instrument r hr hwaits

/-! ### Routers wake workers -/

/-- After a message has been queued, the worker of its instrument is scheduled. -/
theorem mem_scheduled_afterRouting {t : Tracker} {instrument : String} {r : Registration}
    (h : t.board.find? instrument = some r) (now : Nat) (task : Task) :
    .worker instrument r.serial ∈ (t.afterRouting now task instrument (.ok .queued)).scheduled :=
  (adds_goOn _ task).mem (mem_scheduled_wakeWorker h)

/-- **A router wakes the worker whose queue it fills:** what waits afterwards has waited before, or
its worker is scheduled. -/
theorem waiting_of_afterRouting {b : Board} {told : Tracker} {s : Board.Step} {m : Message}
    {result : Except Fault Offer} (hboard : told.board = b.take s)
    (hqueued : ∀ name r m', b.fateAt? name r s = some (.queued m') →
      m.instrument = name ∧ result = .ok .queued)
    {now : Nat} {task : Task} {name : String} {r' : Registration}
    (h : (told.afterRouting now task m.instrument result).board.find? name = some r')
    (hwaits : r'.inbox ≠ []) :
    (∃ r, b.find? name = some r ∧ r.serial = r'.serial ∧ r.inbox ≠ []) ∨
      .worker name r'.serial ∈ (told.afterRouting now task m.instrument result).scheduled := by
  obtain ⟨_, _, hafter⟩ := afterRouting_frame told now task m.instrument result
  rw [hafter] at h
  obtain ⟨r₁, hr₁, hserial₁, hwaits₁⟩ :=
    Board.waiting_of_takeAll (fun _ => offered?_of_mem_faultSteps) h hwaits
  have hr := hr₁
  rw [hboard] at hr
  obtain ⟨r, hr, hserial, hwaits | ⟨m', hfate⟩⟩ := Board.waiting_of_take hr hwaits₁
  · exact .inl ⟨r, hr, hserial.trans hserial₁, hwaits⟩
  · obtain ⟨rfl, rfl⟩ := hqueued name r m' hfate
    exact .inr (hserial₁ ▸ mem_scheduled_afterRouting hr₁ now task)

theorem waiting_of_router {t : Tracker} {now : Nat} {task : Task}
    (hrouter : task = .diffRouter ∨ task = .snapshotRouter) {name : String} {r' : Registration}
    (h : (t.perform now task).board.find? name = some r') (hwaits : r'.inbox ≠ []) :
    (∃ r, t.board.find? name = some r ∧ r.serial = r'.serial ∧ r.inbox ≠ []) ∨
      .worker name r'.serial ∈ (t.perform now task).scheduled := by
  have hanswer : ∀ {m m' : Message} {name : String} {result : Except Fault Offer},
      (if m.instrument = name then Fate.ofAnswer? m result else none) = some (.queued m') →
      m.instrument = name ∧ result = .ok .queued := by
    intro m m' name result hfate
    split at hfate
    case isFalse => cases hfate
    case isTrue hname =>
      refine ⟨hname, ?_⟩
      unfold Fate.ofAnswer? at hfate
      split at hfate <;> cases hfate
      rfl
  rcases hrouter with rfl | rfl
  · simp only [perform] at h ⊢
    cases hdiffs : t.diffs with
    | nil =>
        rw [hdiffs] at h
        exact .inl ⟨r', h, rfl, hwaits⟩
    | cons m diffs =>
        rw [hdiffs] at h
        exact waiting_of_afterRouting rfl (s := .routeDiff now m) (fun _ _ _ => hanswer) h hwaits
  · simp only [perform] at h ⊢
    cases hsnapshots : t.snapshots with
    | nil =>
        rw [hsnapshots] at h
        exact .inl ⟨r', h, rfl, hwaits⟩
    | cons m snapshots =>
        rw [hsnapshots] at h
        exact waiting_of_afterRouting rfl (s := .routeSnapshot m) (fun _ _ _ => hanswer) h hwaits

namespace Attentive

variable {t t' : Tracker}

/-- Who adds to the schedule and offers nothing forgets nobody. -/
theorem of_adds (h : t.Attentive) {added : List Task} (hadds : t.Adds added t')
    (hphase : t'.phase = t.phase) (hstreams : ∀ stream, t'.stream stream = t.stream stream)
    (steps : List Board.Step) (hboard : t'.board = t.board.takeAll steps)
    (hoffers : ∀ s ∈ steps, s.offered? = none) : t'.Attentive := by
  obtain ⟨hreaders, hworkers⟩ := attentive_iff.1 h
  refine attentive_iff.2 ⟨fun hrunning stream hstream => ?_, fun name r' hr' hwaits => ?_⟩
  · rw [hstreams] at hstream
    exact hadds.mem (hreaders (hphase ▸ hrunning) stream hstream)
  · rw [hboard] at hr'
    obtain ⟨r, hr, hserial, hwaits⟩ := Board.waiting_of_takeAll hoffers hr' hwaits
    exact hadds.mem (hserial ▸ hworkers name r hr hwaits)

/-- For workers that have ended nothing waits, and readers that do not run need not read. -/
theorem of_dead (hphase : t.phase ≠ .running) (hdead : t.board.Dead) : t.Attentive :=
  attentive_iff.2 ⟨fun hrunning => absurd hrunning hphase,
    fun name r hr hwaits => absurd (hdead name r hr).2 hwaits⟩

/-- **A task acts** that has been taken out of the schedule for its turn. -/
theorem perform (h : t.Attentive) {rest : Tracker} {task : Task} (hback : rest.Adds [task] t)
    (hboard : rest.board = t.board) (hphase : rest.phase = t.phase)
    (hstreams : ∀ stream, rest.stream stream = t.stream stream) (now : Nat) :
    (rest.perform now task).Attentive := by
  obtain ⟨hreaders, hworkers⟩ := attentive_iff.1 h
  obtain ⟨_, _, _, _, hframe⟩ := perform_frame rest now task
  -- the others for which messages wait are still scheduled
  obtain ⟨added, hadds⟩ : ∃ added, rest.Adds added (rest.perform now task) := by
    by_cases hrefresher : task = .refresher
    · subst hrefresher
      obtain ⟨added, hadds, -⟩ := adds_refreshStep rest now
      exact ⟨added, hadds⟩
    · rcases adds_perform rest now hrefresher with ⟨-, hperform⟩ | ⟨woken, hadds, -⟩
      · exact ⟨[], .none (by rw [hperform])⟩
      · exact ⟨_, hadds⟩
  have hothers : ∀ other, other ≠ task → other ∈ t.scheduled →
      other ∈ (rest.perform now task).scheduled := by
    intro other hother hmem
    rcases List.mem_append.1 (hback.mem_iff.1 hmem) with hmem | hmem
    · exact absurd (List.mem_singleton.1 hmem) hother
    · exact hadds.mem hmem
  -- the task itself is, unless it has found nothing
  have hitself : (rest.perform now task).input task ≠ [] →
      task ∈ (rest.perform now task).scheduled := by
    intro hinput
    have hrefresher : task ≠ .refresher := by
      rintro rfl
      exact hinput rfl
    rcases adds_perform rest now hrefresher with ⟨hnone, hperform⟩ | ⟨woken, hadds, -⟩
    · rw [hperform] at hinput
      exact absurd hnone hinput
    · exact hadds.mem_of_added List.mem_cons_self
  refine attentive_iff.2 ⟨fun hrunning stream hstream => ?_, fun name r' hr' hwaits => ?_⟩
  · by_cases htask : stream.reader = task
    · subst htask
      exact hitself (by rwa [input_reader])
    · refine hothers _ htask (hreaders ?_ stream ?_)
      · rw [hframe, hphase] at hrunning
        exact hrunning
      · rw [← hstreams]
        rwa [stream_perform_of_ne (Ne.symm htask)] at hstream
  · by_cases htask : .worker name r'.serial = task
    · subst htask
      exact hitself (input_worker_ne_nil_iff.2 ⟨r', hr', rfl, hwaits⟩)
    · have hbefore : (∃ r, rest.board.find? name = some r ∧ r.serial = r'.serial ∧ r.inbox ≠ []) →
          .worker name r'.serial ∈ (rest.perform now task).scheduled := by
        rintro ⟨r, hr, hserial, hwaits⟩
        rw [← hserial] at htask ⊢
        exact hothers _ htask (hworkers name r (hboard ▸ hr) hwaits)
      by_cases hrouter : task = .diffRouter ∨ task = .snapshotRouter
      · exact (waiting_of_router hrouter hr' hwaits).elim hbefore id
      · rw [not_or] at hrouter
        rw [hframe] at hr'
        exact hbefore (Board.waiting_of_takeAll
          (fun _ => offered?_of_mem_stepsOfTask hrouter.1 hrouter.2) hr' hwaits)

/-- A message is sent, and the reader of its stream is woken. -/
theorem push (h : t.Attentive) (stream : Kind) (m : Message) : (t.push stream m).Attentive := by
  obtain ⟨hreaders, hworkers⟩ := attentive_iff.1 h
  rw [push_eq]
  split
  case isTrue hrunning =>
    have hadds := adds_wake (t.setStream stream (t.stream stream ++ [m])) stream.reader
    obtain ⟨ready, hwake⟩ :=
      wake_frame (t.setStream stream (t.stream stream ++ [m])) stream.reader
    have hkept : ∀ task ∈ t.scheduled,
        task ∈ ((t.setStream stream (t.stream stream ++ [m])).wake stream.reader).scheduled :=
      fun task htask => hadds.mem (by rwa [scheduled_setStream])
    refine attentive_iff.2 ⟨fun _ stream' hstream => ?_, fun name r hr hwaits => ?_⟩
    · by_cases hsame : stream' = stream
      · subst hsame
        exact mem_scheduled_wake _ _
      · refine hkept _ (hreaders hrunning stream' ?_)
        have hother : (t.setStream stream (t.stream stream ++ [m])).stream stream' ≠ [] := by
          rw [hwake] at hstream
          exact hstream
        rwa [stream_setStream, if_neg hsame] at hother
    · rw [hwake] at hr
      exact hkept _ (hworkers name r (by simpa using hr) hwaits)
  case isFalse hidle =>
    refine attentive_iff.2 ⟨fun hrunning => ?_, fun name r hr hwaits => ?_⟩
    · exact absurd (by simpa using hrunning) hidle
    · rw [scheduled_setStream]
      exact hworkers name r (by simpa using hr) hwaits

/-- **No move forgets anybody.** -/
theorem move (h : t.Attentive) (a : Move) : (t.move a).Attentive := by
  by_cases haside : a.IsAside
  · obtain ⟨added, hadds, -⟩ := adds_of_isAside t haside
    obtain ⟨_, _, _, _, _, hframe⟩ := move_frame_of_isAside t haside
    refine h.of_adds hadds (by rw [hframe]) (fun stream => ?_) _ (board_move t a) fun _ =>
      offered?_of_mem_stepsOf fun now task hperform => ?_
    · rw [hframe]
      cases stream <;> rfl
    · rw [hperform] at haside
      exact haside
  cases a with
  | perform now task =>
      simp only [Tracker.move]
      split
      case isTrue htask => exact h.perform (adds_of_mem_ready htask) rfl rfl (fun _ => rfl) now
      case isFalse => exact h
  | fire now =>
      exact h.of_adds (adds_fire t now) rfl (fun stream => by cases stream <;> rfl) [] rfl (by simp)
  | start now =>
      simp only [Tracker.move, start]
      cases t.phase with
      | idle =>
          obtain ⟨-, hworkers⟩ := attentive_iff.1 h
          refine attentive_iff.2 ⟨fun _ stream _ => ?_, fun name r hr hwaits => ?_⟩
          · refine List.mem_append_left _ (List.mem_append_right _ ?_)
            cases stream <;> simp [Kind.reader]
          · have hadds : t.Adds [.tradeEmitter, .diffRouter, .snapshotRouter, .refresher]
                { t with
                  ready := t.ready ++ [.tradeEmitter, .diffRouter, .snapshotRouter, .refresher] } :=
              adds_of_ready rfl rfl
            exact hadds.mem (hworkers name r hr hwaits)
      | _ => exact h
  | stop =>
      simp only [Tracker.move, stop]
      have hdead := Board.dead_killWorkers t.board
      cases t.phase with
      | idle => exact of_dead (by simp) hdead
      | running => exact of_dead (by simp [record]) fun name r hr => hdead name r hr
      | _ => exact h
  | drop => exact of_dead (by simp [Tracker.move, drop]) (Board.dead_killWorkers t.board)
  | send messages =>
      simp only [Tracker.move, send]
      split
      · exact List.foldlRecOn messages _ h fun t ht m _ => ht.push m.1 m.2
      · exact h
  | _ => exact absurd trivial haside

end Attentive

/-- **Nobody is forgotten at any time.** -/
theorem attentive_of_moves {config : Config} {directory : Directory} {t : Tracker}
    (h : new config directory = .ok t) (as : List Move) : (t.moves as).Attentive := by
  induction as using List.reverseRecOn with
  | nil =>
      rw [moves_nil, eq_of_new h]
      exact .of_dead (by simp) fun name r hr => by cases hr
  | append_singleton as a ih =>
      rw [moves_concat]
      exact ih.move a

/-- **A refresher that is not scheduled waits for a turn that a caller has.** -/
theorem Orderly.refresher_scheduled {t : Tracker} (h : t.Orderly) (hrunning : t.phase = .running) :
    .refresher ∈ t.scheduled ∨
      .periodic ∈ t.turns.waiting ∧ ∃ caller, t.turns.isHeldBy (.caller caller) = true := by
  by_cases hscheduled : Task.refresher ∈ t.scheduled
  · exact .inl hscheduled
  · have hplaces := h.refresher
    rw [places, List.count_eq_zero.2 hscheduled, if_pos hrunning, Nat.zero_add] at hplaces
    have hwaits : Requester.periodic ∈ t.turns.waiting := by
      rw [← List.count_pos_iff]
      omega
    refine .inr ⟨hwaits, ?_⟩
    cases hcurrent : t.turns.current? with
    | none =>
        rw [h.turns.free hcurrent] at hwaits
        cases hwaits
    | some turn =>
        obtain ⟨owner, seen?⟩ := turn
        cases owner with
        | periodic =>
            exact absurd hwaits (h.turns.not_mem_waiting (by simp [Turns.isHeldBy, hcurrent]))
        | caller number => exact ⟨number, by simp [Turns.isHeldBy, hcurrent]⟩

end Tracker

end MarketDepth
