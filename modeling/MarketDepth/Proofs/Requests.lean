/-
**Requests for snapshots.**

A message lost to a full queue leaves a gap that only a snapshot closes.  The mark of a registration
remembers that a snapshot has been asked for: a loss that finds it clear sets it and publishes the
instrument, a diff that is lost while it is set publishes nothing, and a snapshot that is lost
publishes again, since it might have been the answer.  The mark is cleared by the next snapshot that
the worker applies.  What is published waits until somebody reads it, in the order in which the
messages were lost.

Main definitions:

* `MarketDepth.Board.requests` — how often an instrument is published for one registration;
* `MarketDepth.Board.RequestLaw` — **how requests follow the mark**;
* `MarketDepth.Board.askedFor` — the instruments that the losses of a run ask for;
* `MarketDepth.Tracker.received` — what those who read the requests receive.

Main results:

* `MarketDepth.Board.requests_moments` — requests are counted by losses;
* `MarketDepth.Board.requests_diffs_le_one` — diffs ask at most once until a snapshot is applied;
* `MarketDepth.Tracker.received_append_resyncs` — what is asked for is received or still waits;
* `MarketDepth.Tracker.requests_of_moves` — **requests follow the mark, whatever a tracker does.**
-/

import MarketDepth.Proofs.Losses
import MarketDepth.Proofs.Moves

set_option relaxedAutoImplicit false
set_option autoImplicit false

namespace MarketDepth

open Board (Step)

namespace Board

/-! ### Requests for one registration -/

/-- How often a step publishes an instrument on behalf of its registration with a number. -/
def requested (instrument : String) (serial : Nat) (b : Board) (s : Step) : Nat :=
  if (b.find? instrument).any (·.serial = serial) then
    ((b.take s).resyncs.drop b.resyncs.length).count instrument
  else 0

/-- **How often an instrument is published on behalf of a registration** in some moments. -/
def requests (instrument : String) (serial : Nat) (moments : List (Board × Step)) : Nat :=
  (moments.map fun moment => moment.1.requested instrument serial moment.2).sum

/-- The step takes a message from the diff stream. -/
def Step.routesDiff : Step → Bool
  | .routeDiff _ _ => true
  | _ => false

theorem drop_resyncs_take (b : Board) (s : Step) :
    (b.take s).resyncs.drop b.resyncs.length = b.published s := by
  by_cases hread : s = .takeResyncs
  · subst hread
    exact List.drop_nil
  · rw [resyncs_take hread, List.drop_left]

/-- **A step publishes for a registration what its loss asks for.** -/
theorem requested_eq (instrument : String) (serial : Nat) (b : Board) (s : Step) :
    b.requested instrument serial s =
      (b.loss? s).toList.countP fun l => l.befell instrument serial && l.asks := by
  rw [requested, drop_resyncs_take, published_eq]
  cases hl : b.loss? s with
  | none => simp
  | some l =>
      obtain ⟨m, checkAge, r, -, hr, -, rfl⟩ := loss?_eq_some_iff.1 hl
      by_cases hname : m.instrument = instrument
      · subst hname
        cases hasks : Loss.asks { message := m, serial := r.serial, marked := r.resyncPending }
        · simp [Option.filter, hasks]
        · by_cases hserial : r.serial = serial
          · subst hserial
            simp [Option.filter, hasks, hr, Loss.befell]
          · simp [hr, Loss.befell, hserial]
      · cases hasks : Loss.asks { message := m, serial := r.serial, marked := r.resyncPending } <;>
          simp [Option.filter, hasks, Loss.befell, hname]

/-- **Requests are counted by losses.** -/
theorem requests_moments (instrument : String) (serial : Nat) (b : Board) (steps : List Step) :
    requests instrument serial (b.moments steps) =
      (b.losses steps).countP fun l => l.befell instrument serial && l.asks := by
  induction steps generalizing b with
  | nil => rfl
  | cons s steps ih =>
      rw [moments, requests, List.map_cons, List.sum_cons, losses_cons, List.countP_append,
        requested_eq]
      exact congrArg _ (ih (b.take s))

end Board

/-- A loss asks if it found the mark clear; and if it found it set, then for a snapshot only. -/
theorem Loss.countP_asks (p : Loss → Bool) (losses : List Loss) :
    losses.countP (fun l => p l && l.asks) =
      losses.countP (fun l => p l && !l.marked) +
        losses.countP (fun l => p l && (l.marked && l.message.kind = .snapshot)) := by
  induction losses with
  | nil => rfl
  | cons l losses ih =>
      rw [List.countP_cons, List.countP_cons, List.countP_cons, ih]
      cases p l <;> cases hmarked : l.marked <;> simp [Loss.asks, hmarked] <;> omega

/-! ### The mark -/

/-- A mark that is set stays so unless the worker handles a snapshot. -/
theorem Registration.Change.exists_of_cleared {config : Config} {instrument : String}
    {r r' : Registration} {fate : Option Fate} (h : r.Change config instrument fate r')
    (marked : r.resyncPending = true) (cleared : r'.resyncPending = false) :
    ∃ snapshot uid, fate = some (.handled (.snapshot snapshot) uid) := by
  cases h with
  | @handle m inbox next now =>
      rw [resyncPending_after] at cleared
      cases m with
      | snapshot s => exact ⟨s, _, rfl⟩
      | _ => simp [marked] at cleared
  | lose => cases cleared
  | _ =>
      change r.resyncPending = false at cleared
      rw [marked] at cleared
      cases cleared

namespace Board

/-- What is handled is what comes first in the queue of the worker whose turn it is. -/
theorem exists_of_fateAt?_handled {b : Board} {instrument : String} {r : Registration} {s : Step}
    {m : Message} {uid : UInt64} (h : b.fateAt? instrument r s = some (.handled m uid)) :
    ∃ now inbox, s = .work now instrument ∧ r.inbox = m :: inbox := by
  have hanswer : ∀ m' (result : Except Fault Offer),
      Fate.ofAnswer? m' result ≠ some (.handled m uid) := by
    intro m' result hfate
    unfold Fate.ofAnswer? at hfate
    split at hfate <;> cases hfate
  cases s with
  | routeDiff now m' =>
      simp only [fateAt?] at h
      split at h
      · exact absurd h (hanswer _ _)
      · cases h
  | routeSnapshot m' =>
      simp only [fateAt?] at h
      split at h
      · exact absurd h (hanswer _ _)
      · cases h
  | work now worker =>
      simp only [fateAt?] at h
      split at h
      case isTrue hworker =>
        subst hworker
        cases hinbox : r.inbox with
        | nil => simp [hinbox] at h
        | cons m' inbox =>
            simp only [hinbox, List.head?_cons, Option.map_some, Option.some.injEq,
              Fate.handled.injEq] at h
            exact ⟨now, inbox, rfl, by rw [h.1]⟩
      case isFalse => cases h
  | _ => cases h

/-- **The mark is cleared only by a snapshot that the worker handles.** -/
theorem exists_work_of_cleared {b : Board} (hb : b.Numbered) {instrument : String}
    {r r' : Registration} {s : Step} (hr : b.find? instrument = some r)
    (hr' : (b.take s).find? instrument = some r') (same : r'.serial = r.serial)
    (marked : r.resyncPending = true) (cleared : r'.resyncPending = false) :
    ∃ now snapshot inbox, s = .work now instrument ∧ r.inbox = .snapshot snapshot :: inbox := by
  rcases find?_take_cases hr' with ⟨r₀, hr₀, hchange⟩ | ⟨_, _, _, _, _, _, _, _, hle, _, _⟩
  · obtain rfl := Option.some.inj (hr₀.symm.trans hr)
    obtain ⟨snapshot, uid, hfate⟩ := hchange.exists_of_cleared marked cleared
    obtain ⟨now, inbox, hs, hinbox⟩ := exists_of_fateAt?_handled hfate
    exact ⟨now, snapshot, inbox, hs, hinbox⟩
  · have hlt := hb.given hr
    omega

/-- **Every loss sets the mark.** -/
theorem marked_of_loss? {b : Board} {s : Step} {l : Loss} (h : b.loss? s = some l) :
    ∃ r, (b.take s).find? l.message.instrument = some r ∧ r.serial = l.serial ∧
      r.resyncPending = true := by
  obtain ⟨m, checkAge, r, hoffered, hr, hanswer, rfl⟩ := loss?_eq_some_iff.1 h
  have hs : ∀ now live seen found, s ≠ .converge now live seen found := by
    rintro now live seen found rfl
    cases hoffered
  refine ⟨{ r with resyncPending := true }, ?_, rfl, rfl⟩
  rw [find?_take hs, hr, Option.map_some, take_of_offered? hoffered, if_pos rfl,
    Registration.offered, hanswer]

/-- A lost snapshot publishes its instrument. -/
theorem resyncs_take_of_lost_snapshot {b : Board} {s : Step} {l : Loss} (h : b.loss? s = some l)
    (hkind : l.message.kind = .snapshot) :
    (b.take s).resyncs = b.resyncs ++ [l.message.instrument] := by
  have hs : s ≠ .takeResyncs := by
    rintro rfl
    cases h
  rw [resyncs_take hs, published_eq, h]
  simp [Option.filter, Loss.asks, hkind]

/-- A number whose registration, if it still has one, is marked. -/
structure Asked (b : Board) (instrument : String) (serial : Nat) : Prop where
  given : serial < b.nextSerial
  marked : ∀ r, b.find? instrument = some r → r.serial = serial → r.resyncPending = true

/-- It stays so while no snapshot is applied. -/
theorem Asked.take {b : Board} {instrument : String} {serial : Nat} (h : b.Asked instrument serial)
    {s : Step} (unanswered : ∀ snapshot uid,
      b.fate? instrument serial s ≠ some (.handled (.snapshot snapshot) uid)) :
    (b.take s).Asked instrument serial where
  given := Nat.lt_of_lt_of_le h.given (nextSerial_le_take b s)
  marked := by
    intro r' hr' hserial
    rcases find?_take_cases hr' with ⟨r, hr, hchange⟩ | ⟨_, _, _, _, _, _, _, _, hle, _, _⟩
    · have hsame : r.serial = serial := hchange.serial_eq.symm.trans hserial
      by_contra hclear
      obtain ⟨snapshot, uid, hfate⟩ :=
        hchange.exists_of_cleared (h.marked r hr hsame) (Bool.eq_false_iff.2 hclear)
      refine unanswered snapshot uid ?_
      rw [← hsame, fate?_of_find? hr, hfate]
    · have hlt := h.given
      omega

theorem asked_of_loss? {b : Board} (hb : b.Numbered) {s : Step} {l : Loss}
    {instrument : String} {serial : Nat} (h : b.loss? s = some l)
    (hbefell : l.befell instrument serial = true) : (b.take s).Asked instrument serial := by
  obtain ⟨rfl, rfl⟩ : l.message.instrument = instrument ∧ l.serial = serial := by
    simpa [Loss.befell] using hbefell
  obtain ⟨r, hr, hserial, hmarked⟩ := marked_of_loss? h
  constructor
  case given =>
    rw [← hserial]
    exact (hb.take s).given hr
  case marked =>
    intro r' hr' _
    rwa [← Option.some.inj (hr.symm.trans hr')]

/-- While the mark is set, diffs ask for nothing. -/
theorem requested_eq_zero_of_asked {b : Board} {instrument : String} {serial : Nat}
    (h : b.Asked instrument serial) {s : Step} (hs : s.routesDiff = true) :
    b.requested instrument serial s = 0 := by
  rw [requested_eq]
  cases hl : b.loss? s with
  | none => rfl
  | some l =>
      obtain ⟨m, checkAge, r, hoffered, hr, -, rfl⟩ := loss?_eq_some_iff.1 hl
      have hkind : m.kind = .diff := by
        cases s with
        | routeDiff now m' =>
            simp only [Step.offered?] at hoffered
            split at hoffered
            case isTrue hkind =>
              cases hoffered
              exact hkind
            case isFalse => cases hoffered
        | _ => cases hs
      rw [Option.toList_some, List.countP_singleton]
      refine if_neg fun hcounts => ?_
      simp only [Loss.befell, Loss.asks, hkind, Bool.decide_and, Bool.and_eq_true,
        decide_eq_true_eq] at hcounts
      obtain ⟨⟨rfl, hserial⟩, hasks⟩ := hcounts
      simp [h.marked r hr hserial] at hasks

/-- The requests of the diffs of a run. -/
theorem requests_filter_cons (instrument : String) (serial : Nat) (b : Board) (s : Step)
    (steps : List Step) :
    requests instrument serial ((b.moments (s :: steps)).filter (·.2.routesDiff)) =
      (if s.routesDiff then b.requested instrument serial s else 0) +
        requests instrument serial (((b.take s).moments steps).filter (·.2.routesDiff)) := by
  rw [moments, List.filter_cons]
  split
  · rfl
  · exact (Nat.zero_add _).symm

theorem requests_diffs_eq_zero {b : Board} {instrument : String} {serial : Nat}
    (h : b.Asked instrument serial) {steps : List Step}
    (unanswered : ∀ snapshot uid,
      .handled (.snapshot snapshot) uid ∉ b.fates instrument serial steps) :
    requests instrument serial ((b.moments steps).filter (·.2.routesDiff)) = 0 := by
  induction steps generalizing b with
  | nil => rfl
  | cons s steps ih =>
      simp only [fates, List.mem_append, not_or, Option.mem_toList] at unanswered
      rw [requests_filter_cons, ih (h.take fun snapshot uid => (unanswered snapshot uid).1)
        fun snapshot uid => (unanswered snapshot uid).2]
      split
      case isTrue hs => rw [requested_eq_zero_of_asked h hs]
      case isFalse => rfl

/-- **Diffs ask at most once until a snapshot is applied.** -/
theorem requests_diffs_le_one {b : Board} (hb : b.Numbered) {instrument : String} {serial : Nat}
    {steps : List Step} (unanswered : ∀ snapshot uid,
      .handled (.snapshot snapshot) uid ∉ b.fates instrument serial steps) :
    requests instrument serial ((b.moments steps).filter (·.2.routesDiff)) ≤ 1 := by
  induction steps generalizing b with
  | nil => exact Nat.zero_le 1
  | cons s steps ih =>
      simp only [fates, List.mem_append, not_or, Option.mem_toList] at unanswered
      have hrest : ∀ snapshot uid,
          .handled (.snapshot snapshot) uid ∉ (b.take s).fates instrument serial steps :=
        fun snapshot uid => (unanswered snapshot uid).2
      rw [requests_filter_cons, requested_eq]
      cases hl : b.loss? s with
      | none =>
          have hle := ih (hb.take s) hrest
          simpa using hle
      | some l =>
          by_cases hbefell : l.befell instrument serial = true
          · -- this loss has set the mark, so that no later diff asks
            rw [requests_diffs_eq_zero (asked_of_loss? hb hl hbefell) hrest]
            split
            · exact List.countP_le_length
            · exact Nat.zero_le 1
          · have hle := ih (hb.take s) hrest
            simpa [hbefell] using hle

/-! ### The law -/

/-- **How requests follow the mark** of the registration of an instrument with a number. -/
structure RequestLaw (b : Board) (steps : List Step) (instrument : String) (serial : Nat) :
    Prop where
  /-- The instrument is published for each loss that found the mark clear, and for each snapshot
  among those that found it set. -/
  counted : requests instrument serial (b.moments steps) =
    (b.losses steps).countP (fun l => l.befell instrument serial && !l.marked) +
      (b.losses steps).countP
        (fun l => l.befell instrument serial && (l.marked && l.message.kind = .snapshot))
  /-- The mark is cleared only when the worker applies a snapshot. -/
  cleared : ∀ c s r r', (c, s) ∈ b.moments steps → c.find? instrument = some r →
    (c.take s).find? instrument = some r' → r.serial = serial → r'.serial = serial →
    r.resyncPending = true → r'.resyncPending = false →
      ∃ now snapshot inbox, s = .work now instrument ∧ r.inbox = .snapshot snapshot :: inbox
  /-- While it applies none, diffs publish the instrument at most once. -/
  once : ∀ before between after, steps = before ++ between ++ after →
    (∀ snapshot uid, .handled (.snapshot snapshot) uid ∉
      (b.takeAll before).fates instrument serial between) →
      requests instrument serial
        (((b.takeAll before).moments between).filter (·.2.routesDiff)) ≤ 1
  /-- The mark is set right after a loss. -/
  marked : ∀ c s l, (c, s) ∈ b.moments steps → c.loss? s = some l →
    l.befell instrument serial = true →
      ∃ r, (c.take s).find? instrument = some r ∧ r.serial = serial ∧ r.resyncPending = true
  /-- A lost snapshot publishes the instrument, whether the mark was set or not. -/
  dropped : ∀ c s l, (c, s) ∈ b.moments steps → c.loss? s = some l →
    l.befell instrument serial = true → l.message.kind = .snapshot →
      (c.take s).resyncs = c.resyncs ++ [instrument]

theorem requestLaw {b : Board} (hb : b.Numbered) (steps : List Step) (instrument : String)
    (serial : Nat) : b.RequestLaw steps instrument serial := by
  constructor
  case counted => rw [requests_moments, Loss.countP_asks]
  case cleared =>
    intro c s r r' hmoment hr hr' hserial hserial' hmarked hcleared
    obtain ⟨before, after, -, rfl⟩ := mem_moments_iff.1 hmoment
    exact exists_work_of_cleared (hb.takeAll before) hr hr' (hserial'.trans hserial.symm) hmarked
      hcleared
  case once =>
    intro before between after _ hunanswered
    exact requests_diffs_le_one (hb.takeAll before) hunanswered
  case marked =>
    intro c s l _ hl hbefell
    obtain ⟨rfl, rfl⟩ : l.message.instrument = instrument ∧ l.serial = serial := by
      simpa [Loss.befell] using hbefell
    exact marked_of_loss? hl
  case dropped =>
    intro c s l _ hl hbefell hkind
    obtain ⟨rfl, -⟩ : l.message.instrument = instrument ∧ l.serial = serial := by
      simpa [Loss.befell] using hbefell
    exact resyncs_take_of_lost_snapshot hl hkind

/-! ### In order -/

/-- **The instruments that the losses of a run ask for,** in the order of the losses. -/
def askedFor (b : Board) (steps : List Step) : List String :=
  ((b.losses steps).filter (·.asks)).map (·.message.instrument)

theorem askedFor_append (b : Board) (steps steps' : List Step) :
    b.askedFor (steps ++ steps') = b.askedFor steps ++ (b.takeAll steps).askedFor steps' := by
  rw [askedFor, losses_append, List.filter_append, List.map_append]
  rfl

/-- What is asked for is published. -/
theorem resyncs_takeAll (b : Board) {steps : List Step} (h : .takeResyncs ∉ steps) :
    (b.takeAll steps).resyncs = b.resyncs ++ b.askedFor steps := by
  induction steps generalizing b with
  | nil => exact (List.append_nil _).symm
  | cons s steps ih =>
      rw [List.mem_cons, not_or] at h
      obtain ⟨hs, hsteps⟩ := h
      have hpublished : b.published s = b.askedFor [s] := by
        rw [published_eq, askedFor, losses_cons, Option.toList_filter]
        simp [losses, moments]
      have hcons : b.askedFor (s :: steps) = b.askedFor [s] ++ (b.take s).askedFor steps :=
        askedFor_append b [s] steps
      rw [takeAll_cons, ih (b.take s) hsteps, resyncs_take (Ne.symm hs), hpublished, hcons,
        List.append_assoc]

end Board

/-! ### Readers -/

namespace Tracker

/-- The requests that somebody receives who reads them in a move. -/
def readIn (t : Tracker) : Move → List String
  | .takeResyncs => t.takeResyncs.1.getD []
  | _ => []

/-- **The requests that are received** along a list of moves. -/
def received (t : Tracker) : List Move → List String
  | [] => []
  | a :: as => t.readIn a ++ (t.move a).received as

theorem received_append (t : Tracker) (as as' : List Move) :
    t.received (as ++ as') = t.received as ++ (t.moves as).received as' := by
  induction as generalizing t with
  | nil => rfl
  | cons a as ih =>
      rw [List.cons_append, received, received, ih, List.append_assoc]
      rfl

theorem takeResyncs_not_mem_faultSteps (task : Task) (config : Config) (fault? : Option Fault) :
    .takeResyncs ∉ task.faultSteps config fault? := by
  cases fault? <;> simp [Task.faultSteps]

theorem takeResyncs_not_mem_concludeSteps (t : Tracker) (now : Nat) (live : Bool)
    (seen : List String) : .takeResyncs ∉ t.concludeSteps now live seen := by
  unfold concludeSteps
  split <;> simp

theorem takeResyncs_not_mem_finishSteps (t : Tracker) (now : Nat) (seen : List String) :
    .takeResyncs ∉ t.finishSteps now seen := by
  unfold finishSteps
  split
  · simp
  · exact takeResyncs_not_mem_faultSteps _ _ _

theorem takeResyncs_not_mem_beginSteps (t : Tracker) (now : Nat) :
    .takeResyncs ∉ t.beginSteps now := by
  unfold beginSteps
  split
  · exact takeResyncs_not_mem_finishSteps t now _
  · simp

theorem takeResyncs_not_mem_stepsOfTask (t : Tracker) (now : Nat) (task : Task) :
    .takeResyncs ∉ t.stepsOfTask now task := by
  have hfaults := takeResyncs_not_mem_faultSteps
  cases task with
  | tradeEmitter =>
      simp only [stepsOfTask]
      cases t.trades <;> simp [hfaults]
  | diffRouter =>
      simp only [stepsOfTask]
      cases t.diffs <;> simp [hfaults]
  | snapshotRouter =>
      simp only [stepsOfTask]
      cases t.snapshots <;> simp [hfaults]
  | refresher =>
      simp only [stepsOfTask]
      rcases t.turns.current? with _ | ⟨_ | caller, _ | seen⟩
      · exact takeResyncs_not_mem_beginSteps t now
      · exact takeResyncs_not_mem_beginSteps t now
      · exact takeResyncs_not_mem_finishSteps t now seen
      · simp
      · simp
  | worker instrument serial =>
      simp only [stepsOfTask]
      cases t.board.find? instrument with
      | none => simp
      | some r =>
          dsimp only
          split <;> simp [hfaults]

/-- Only their reader reads the requests. -/
theorem takeResyncs_not_mem_stepsOf (t : Tracker) {a : Move} (h : a ≠ .takeResyncs) :
    .takeResyncs ∉ t.stepsOf a := by
  cases a with
  | perform now task =>
      simp only [stepsOf]
      split
      · exact takeResyncs_not_mem_stepsOfTask t now task
      · simp
  | start now =>
      simp only [stepsOf]
      cases t.phase <;> simp
  | stop =>
      simp only [stepsOf]
      cases t.phase <;> simp
  | conclude now caller =>
      simp only [stepsOf]
      rcases t.turns.current? with _ | ⟨owner, _ | seen⟩
      · simp
      · simp
      · dsimp only
        split
        · exact takeResyncs_not_mem_concludeSteps t now true seen
        · simp
  | refreshDetached now =>
      simp only [stepsOf]
      split
      · exact takeResyncs_not_mem_concludeSteps t now false _
      · simp
  | takeResyncs => exact absurd rfl h
  | _ => simp [stepsOf]

/-- What a move receives and leaves waiting is what waited and what it asks for. -/
theorem readIn_append_resyncs (t : Tracker) (a : Move) :
    t.readIn a ++ (t.move a).board.resyncs =
      t.board.resyncs ++ t.board.askedFor (t.stepsOf a) := by
  by_cases hread : a = .takeResyncs
  · subst hread
    by_cases htaken : t.resyncTaken = true
    · simp [readIn, move, takeResyncs, stepsOf, htaken, Board.askedFor, Board.losses,
        Board.moments, Board.loss?, Step.offered?]
    · simp [readIn, move, takeResyncs, stepsOf, htaken, Board.askedFor, Board.losses,
        Board.moments]
  · have hnone : t.readIn a = [] := by
      cases a with
      | takeResyncs => exact absurd rfl hread
      | _ => rfl
    rw [hnone, List.nil_append, board_move,
      Board.resyncs_takeAll _ (takeResyncs_not_mem_stepsOf t hread)]

/-- **What is asked for is received or still waits,** in the order of the losses. -/
theorem received_append_resyncs (t : Tracker) (as : List Move) :
    t.received as ++ (t.moves as).board.resyncs =
      t.board.resyncs ++ t.board.askedFor (t.trace as) := by
  induction as using List.reverseRecOn with
  | nil => exact (List.append_nil _).symm
  | append_singleton as a ih =>
      have hlast := readIn_append_resyncs (t.moves as) a
      rw [received_append, moves_concat, received, received, List.append_nil, List.append_assoc,
        hlast, ← List.append_assoc, ih, trace_concat, Board.askedFor_append, board_moves,
        List.append_assoc]

/-- Once somebody reads the requests, somebody does for ever. -/
theorem resyncTaken_move {t : Tracker} (h : t.resyncTaken = true) (a : Move) :
    (t.move a).resyncTaken = true := by
  cases a with
  | perform now task =>
      simp only [move]
      split
      · obtain ⟨_, _, _, _, hperform⟩ :=
          perform_frame { t with ready := t.ready.erase task } now task
        rw [hperform]
        exact h
      · exact h
  | start now =>
      simp only [move, start]
      cases t.phase <;> exact h
  | stop =>
      simp only [move, stop]
      cases t.phase <;> exact h
  | send messages =>
      obtain ⟨_, _, _, _, hsend⟩ := send_frame t messages
      rw [move, hsend]
      exact h
  | ask caller =>
      simp only [move]
      split <;> exact h
  | begin caller =>
      simp only [move]
      split
      · split <;> exact h
      · exact h
  | conclude now caller =>
      simp only [move]
      split
      · split
        · obtain ⟨_, hconclude⟩ := concludeCycle_frame t now _
          rw [hconclude]
          exact h
        · exact h
      · exact h
  | leave caller =>
      simp only [move, leaveTurn]
      split
      · obtain ⟨_, hpass⟩ := passTurn_frame t
        rw [hpass]
        exact h
      · exact h
  | refreshDetached now =>
      simp only [move, refreshDetached]
      split
      · split
        · exact h
        · split <;> exact h
      · exact h
  | takeResyncReader => rfl
  | takeResyncs =>
      simp only [move, takeResyncs]
      split <;> exact h
  | _ => exact h

theorem resyncTaken_moves {as : List Move} (h : .takeResyncReader ∈ as) (t : Tracker) :
    (t.moves as).resyncTaken = true := by
  induction as using List.reverseRecOn with
  | nil => cases h
  | append_singleton as a ih =>
      rw [moves_concat]
      rcases List.mem_append.1 h with h | h
      · exact resyncTaken_move (ih h) a
      · obtain rfl := List.mem_singleton.1 h
        rfl

/-- **Requests follow the mark,** for every registration, in whatever order tasks act and whatever
happens outside.  They are received in the order of the losses that ask for them, none left out and
none twice, and those that nobody has read yet wait: whoever takes the reading end, early or late,
and reads has received all of them. -/
theorem requests_of_moves {config : Config} {directory : Directory} {t : Tracker}
    (h : new config directory = .ok t) (as : List Move) :
    (∀ instrument serial, t.board.RequestLaw (t.trace as) instrument serial) ∧
    t.received as ++ (t.moves as).board.resyncs = t.board.askedFor (t.trace as) ∧
    (.takeResyncReader ∈ as →
      t.received (as ++ [.takeResyncs]) = t.board.askedFor (t.trace as)) := by
  have hstart : t.board = .start config := congrArg (·.board) (eq_of_new h)
  have hnumbered : t.board.Numbered := by
    rw [hstart]
    exact Board.numbered_start config
  have hreceived : t.received as ++ (t.moves as).board.resyncs =
      t.board.askedFor (t.trace as) := by
    rw [received_append_resyncs, hstart]
    rfl
  refine ⟨Board.requestLaw hnumbered (t.trace as), hreceived, fun hreader => ?_⟩
  rw [← hreceived, received_append]
  simp [received, readIn, takeResyncs, resyncTaken_moves hreader t]

/-- With room for one message: a lost diff asks, another does not, and a lost snapshot asks again;
after the snapshot that was queued a lost diff asks once more.  A worker that dies is replaced, and
the mark of its successor is clear, so that the first diff it loses asks.  Nobody reads until all
this is over. -/
theorem requests_of_moves_read_late :
    let config : Config := { queueCapacity := 1 }
    let update (id : UInt64) : Update := { instrument := "A", updateId := id, timestamp := 0 }
    let listing : Listing := { instrument := "A", timestamp := 0, book := .empty "A" }
    let directory : Directory := { catalog := .ofListings [listing] }
    let t : Tracker := { board := .start config, directory }
    let as : List Move := [.start 0, .perform 0 .refresher,
      .send [(.snapshot, .snapshot (update 1)), (.diff, .diff (update 5)),
        (.diff, .diff (update 6)), (.snapshot, .snapshot (update 6)), (.diff, .diff (update 7)),
        (.diff, .diff (update 8)), (.diff, .diff (update 9)), (.diff, .diff (update 10))],
      .perform 0 .snapshotRouter, .perform 0 .diffRouter, .perform 0 .diffRouter,
      .perform 0 .snapshotRouter, .perform 0 (.worker "A" 0), .perform 0 .diffRouter,
      .perform 0 .diffRouter, .loseWorker "A", .ask 0, .begin 0, .conclude 0 0,
      .perform 0 .diffRouter, .perform 0 .diffRouter, .takeResyncReader]
    new config directory = .ok t ∧
    (t.board.losses (t.trace as)).map (fun l => (l.message.kind, l.serial, l.marked)) =
      [(.diff, 0, false), (.diff, 0, true), (.snapshot, 0, true), (.diff, 0, false),
        (.diff, 1, false)] ∧
    .takeResyncReader ∈ as ∧
    t.received (as ++ [.takeResyncs]) = t.board.askedFor (t.trace as) ∧
    t.board.askedFor (t.trace as) = ["A", "A", "A", "A"] := by
  intro config update listing directory t as
  have hnew : new config directory = .ok t := rfl
  have hlosses : (t.board.losses (t.trace as)).map (fun l => (l.message.kind, l.serial, l.marked)) =
      [(.diff, 0, false), (.diff, 0, true), (.snapshot, 0, true), (.diff, 0, false),
        (.diff, 1, false)] := by
    unfold t
    cbv
  have hreader : .takeResyncReader ∈ as := by simp [as]
  have hasked : t.board.askedFor (t.trace as) = ["A", "A", "A", "A"] := by
    unfold t
    cbv
  exact ⟨hnew, hlosses, hreader, (requests_of_moves hnew as).2.2 hreader, hasked⟩

end Tracker

end MarketDepth
