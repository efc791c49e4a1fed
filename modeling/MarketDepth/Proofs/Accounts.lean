/-
**Every message is accounted for once.**

The totals of a tracker are counted in four places: by the two routers, by the emitter, and where a
message is lost.  They fit together.  Whatever is taken from a stream is counted as accepted, as
rejected or, for snapshots, as lost, or it meets a fault and is not counted at all; and what is
accepted has been put into a queue or has been noted on a book.  The other side of these equations
is not counted by the tracker: it is read off its streams, its queues and its books.

Main definitions:

* `MarketDepth.Board.enter` — what a step enters into the totals;
* `MarketDepth.Board.faults` — the faults that tasks meet with the messages of a stream;
* `MarketDepth.Board.Refuses` — why a task refuses a message;
* `MarketDepth.Board.gains` — **by how much a measure of registrations grows along a run**;
* `MarketDepth.Board.Balanced` — **the accounts of a run are in balance.**

Main results:

* `MarketDepth.Board.totals_take` — the totals after a step;
* `MarketDepth.Board.refuses_of_fault?` — a fault is a message refused, and changes nothing;
* `MarketDepth.Board.Balanced.concat` — a step keeps the accounts in balance;
* `MarketDepth.Tracker.balanced_of_moves` — **they are in balance whatever a tracker does.**
-/

import MarketDepth.Proofs.Losses
import MarketDepth.Proofs.Streams

set_option relaxedAutoImplicit false
set_option autoImplicit false

namespace MarketDepth

open Board (Step)

/-! ### What is entered into the totals -/

namespace Totals

/-- Enters the answer to a diff. -/
def enterDiff (totals : Totals) : Offer → Totals
  | .queued => { totals with diffsAccepted := totals.diffsAccepted + 1 }
  | .unknown | .stale => { totals with diffsRejected := totals.diffsRejected + 1 }
  | .overflow =>
      { totals with
        diffsRejected := totals.diffsRejected + 1
        queueOverflows := totals.queueOverflows + 1 }
  | .closed => totals

/-- Enters the answer to a snapshot. -/
def enterSnapshot (totals : Totals) : Offer → Totals
  | .queued => { totals with snapshotsRouted := totals.snapshotsRouted + 1 }
  | .unknown => { totals with snapshotsDropped := totals.snapshotsDropped + 1 }
  | .overflow => { totals with queueOverflows := totals.queueOverflows + 1 }
  | .stale | .closed => totals

/-- Enters a trade, for a known instrument or not. -/
def enterTrade (totals : Totals) (known : Bool) : Totals :=
  if known then { totals with tradesAccepted := totals.tradesAccepted + 1 }
  else { totals with tradesRejected := totals.tradesRejected + 1 }

/-- All the totals. -/
def counters (totals : Totals) : List Nat :=
  [totals.diffsAccepted, totals.diffsRejected, totals.snapshotsRouted, totals.snapshotsDropped,
    totals.tradesAccepted, totals.tradesRejected, totals.queueOverflows]

end Totals

namespace Board

/-- **What a step enters into the totals.** -/
def enter (b : Board) : Step → Totals
  | .routeDiff _ m => if m.kind = .diff then b.totals.enterDiff (b.offer m true).1 else b.totals
  | .routeSnapshot m =>
      if m.kind = .snapshot then b.totals.enterSnapshot (b.offer m false).1 else b.totals
  | .emitTrade _ (.trade t) => b.totals.enterTrade (b.find? t.instrument).isSome
  | _ => b.totals

theorem totals_overflow (b : Board) (r : Registration) (m : Message) :
    (b.overflow r m).totals =
      { b.totals with queueOverflows := b.totals.queueOverflows + 1 } := by
  unfold overflow
  dsimp only
  split
  · rfl
  · split <;> rfl

/-- An offer counts nothing but its overflow. -/
theorem totals_offer (b : Board) (m : Message) (checkAge : Bool) :
    (b.offer m checkAge).2.totals =
      if (b.offer m checkAge).1 = .overflow then
        { b.totals with queueOverflows := b.totals.queueOverflows + 1 }
      else b.totals := by
  cases hm : b.find? m.instrument with
  | none => simp [offer_of_find?_eq_none hm]
  | some r =>
      rw [offer_eq hm]
      cases r.answer b.config m checkAge with
      | overflow => simp [totals_overflow]
      | _ => simp [setRegistration]

theorem totals_reportDiffs (b : Board) (now : Nat) : (b.reportDiffs now).totals = b.totals := by
  unfold reportDiffs; split <;> rfl

theorem totals_reportTrades (b : Board) (now : Nat) : (b.reportTrades now).totals = b.totals := by
  unfold reportTrades; split <;> rfl

theorem totals_routeDiff {b : Board} {m : Message} (h : m.kind = .diff) (now : Nat) :
    (b.routeDiff now m).2.totals = b.totals.enterDiff (b.offer m true).1 := by
  have htotals := totals_offer b m true
  rw [routeDiff, if_neg (not_not.2 h)]
  cases hoffer : b.offer m true with
  | mk answer b' =>
      rw [hoffer] at htotals
      cases answer with
      | closed => rfl
      | queued => simp_all [acceptDiff, totals_reportDiffs, Totals.enterDiff]
      | _ => simp_all [rejectDiff, totals_reportDiffs, Totals.enterDiff]

theorem totals_routeSnapshot {b : Board} {m : Message} (h : m.kind = .snapshot) :
    (b.routeSnapshot m).2.totals = b.totals.enterSnapshot (b.offer m false).1 := by
  have htotals := totals_offer b m false
  rw [routeSnapshot, if_neg (not_not.2 h)]
  cases hoffer : b.offer m false with
  | mk answer b' =>
      rw [hoffer] at htotals
      cases answer <;> simp_all [Totals.enterSnapshot]

theorem totals_emitTrade (b : Board) (now : Nat) (t : Trade) :
    (b.emitTrade now (.trade t)).2.totals = b.totals.enterTrade (b.find? t.instrument).isSome := by
  simp only [emitTrade]
  split
  next r hr => rw [totals_reportTrades, hr]; rfl
  next hr => rw [totals_reportTrades, hr]; rfl

theorem totals_converge (b : Board) (now : Nat) (live : Bool) (seen : List String)
    (found : Catalog) : (b.converge now live seen found).2.totals = b.totals := by
  have harchive : ∀ (c : Board) (name : String), (c.archive name).totals = c.totals := by
    intro c name
    unfold archive
    split <;> rfl
  refine converge_induction (P := fun c => c.totals = b.totals) now live seen found rfl ?_ ?_ ?_
  · intro c l hc
    exact (harchive c l.instrument).trans hc
  · intro c name hc
    exact (harchive c name).trans hc
  · intro c events hc
    exact hc

/-- **The totals after a step.** -/
theorem totals_take (b : Board) (s : Step) : (b.take s).totals = b.enter s := by
  cases s with
  | routeDiff now m =>
      simp only [take, enter]
      split
      case isTrue hkind => exact totals_routeDiff hkind now
      case isFalse hkind => rw [routeDiff_of_kind_ne hkind]
  | routeSnapshot m =>
      simp only [take, enter]
      split
      case isTrue hkind => exact totals_routeSnapshot hkind
      case isFalse hkind => rw [routeSnapshot_of_kind_ne hkind]
  | emitTrade now m =>
      cases m with
      | trade t => exact totals_emitTrade b now t
      | _ => rfl
  | work now instrument =>
      simp only [take, enter, work]
      split
      · rfl
      · split
        · rfl
        · split <;> rfl
  | converge now live seen found => exact totals_converge b now live seen found
  | _ => rfl

/-! ### Faults -/

/-- The fault that a task meets in a step with a message from the stream of a kind. -/
def fault? (stream : Kind) (b : Board) : Step → Option Fault
  | .routeDiff now m => if stream = .diff then faultOf? (b.routeDiff now m).1 else none
  | .routeSnapshot m => if stream = .snapshot then faultOf? (b.routeSnapshot m).1 else none
  | .emitTrade now m => if stream = .trade then (b.emitTrade now m).1 else none
  | _ => none

/-- **The faults that tasks meet along a run** with the messages of a stream. -/
def faults (stream : Kind) (b : Board) (steps : List Step) : List Fault :=
  (b.moments steps).filterMap fun moment => moment.1.fault? stream moment.2

theorem faults_concat (stream : Kind) (b : Board) (steps : List Step) (s : Step) :
    b.faults stream (steps ++ [s]) =
      b.faults stream steps ++ ((b.takeAll steps).fault? stream s).toList := by
  rw [faults, moments_concat, List.filterMap_append, List.filterMap_cons, List.filterMap_nil]
  cases (b.takeAll steps).fault? stream s <;> simp [faults]

/-- A diff meets a fault when the worker is dead, and only then. -/
theorem faultOf?_routeDiff {b : Board} {m : Message} (h : m.kind = .diff) (now : Nat) :
    faultOf? (b.routeDiff now m).1 =
      if (b.offer m true).1 = .closed then some (.queueClosed m.instrument) else none := by
  rw [routeDiff, if_neg (not_not.2 h)]
  cases hoffer : b.offer m true with
  | mk answer b' => cases answer <;> rfl

/-- So does a snapshot. -/
theorem faultOf?_routeSnapshot {b : Board} {m : Message} (h : m.kind = .snapshot) :
    faultOf? (b.routeSnapshot m).1 =
      if (b.offer m false).1 = .closed then some (.queueClosed m.instrument) else none := by
  rw [routeSnapshot, if_neg (not_not.2 h)]
  cases hoffer : b.offer m false with
  | mk answer b' => cases answer <;> rfl

/-- A closed queue is the queue of a registration whose worker is dead. -/
theorem exists_dead_of_closed {b : Board} {m : Message} {checkAge : Bool}
    (h : (b.offer m checkAge).1 = .closed) :
    ∃ r, b.find? m.instrument = some r ∧ r.live = false := by
  cases hr : b.find? m.instrument with
  | none =>
      rw [offer_of_find?_eq_none hr] at h
      cases h
  | some r =>
      refine ⟨r, rfl, ?_⟩
      rw [offer_eq hr, Registration.answer] at h
      split at h
      · cases h
      · split at h
        case isTrue hdead => exact hdead
        case isFalse => split at h <;> cases h

/-- **Why a task refuses a message** from the stream of a kind: it is of another kind, or it is for
a dead worker. -/
def Refuses (b : Board) (stream : Kind) (m : Message) (fault : Fault) : Prop :=
  m.kind ≠ stream ∧ fault = .unexpectedMessage m.kind stream.name ∨
    fault = .queueClosed m.instrument ∧ ∃ r, b.find? m.instrument = some r ∧ r.live = false

theorem refuses_of_routeDiff {b : Board} {now : Nat} {m : Message} {fault : Fault}
    (h : faultOf? (b.routeDiff now m).1 = some fault) :
    (b.routeDiff now m).2 = b ∧ b.Refuses .diff m fault := by
  by_cases hkind : m.kind = .diff
  · rw [faultOf?_routeDiff hkind] at h
    split at h
    case isFalse => cases h
    case isTrue hclosed =>
      refine ⟨?_, .inr ⟨(Option.some.inj h).symm, exists_dead_of_closed hclosed⟩⟩
      rw [routeDiff, if_neg (not_not.2 hkind)]
      split <;> simp_all
  · rw [routeDiff_of_kind_ne hkind] at h ⊢
    exact ⟨rfl, .inl ⟨hkind, (Option.some.inj h).symm⟩⟩

theorem refuses_of_routeSnapshot {b : Board} {m : Message} {fault : Fault}
    (h : faultOf? (b.routeSnapshot m).1 = some fault) :
    (b.routeSnapshot m).2 = b ∧ b.Refuses .snapshot m fault := by
  by_cases hkind : m.kind = .snapshot
  · rw [faultOf?_routeSnapshot hkind] at h
    split at h
    case isFalse => cases h
    case isTrue hclosed =>
      refine ⟨?_, .inr ⟨(Option.some.inj h).symm, exists_dead_of_closed hclosed⟩⟩
      rw [routeSnapshot, if_neg (not_not.2 hkind)]
      split <;> simp_all
  · rw [routeSnapshot_of_kind_ne hkind] at h ⊢
    exact ⟨rfl, .inl ⟨hkind, (Option.some.inj h).symm⟩⟩

/-- Trades reach a book even when its worker is dead. -/
theorem refuses_of_emitTrade {b : Board} {now : Nat} {m : Message} {fault : Fault}
    (h : (b.emitTrade now m).1 = some fault) :
    (b.emitTrade now m).2 = b ∧ b.Refuses .trade m fault := by
  cases m with
  | trade t =>
      simp only [emitTrade] at h
      split at h <;> cases h
  | _ => exact ⟨rfl, .inl ⟨by simp, (Option.some.inj h).symm⟩⟩

/-- **A fault is a message refused,** and leaves the board as it was. -/
theorem refuses_of_fault? {stream : Kind} {b : Board} {s : Step} {fault : Fault}
    (h : b.fault? stream s = some fault) :
    b.take s = b ∧ ∃ m, s.taken? stream = some m ∧ b.Refuses stream m fault := by
  cases s with
  | routeDiff now m =>
      simp only [fault?] at h
      split at h
      case isFalse => cases h
      case isTrue hstream =>
        obtain ⟨hboard, hrefuses⟩ := refuses_of_routeDiff h
        exact ⟨hboard, m, if_pos hstream, hstream ▸ hrefuses⟩
  | routeSnapshot m =>
      simp only [fault?] at h
      split at h
      case isFalse => cases h
      case isTrue hstream =>
        obtain ⟨hboard, hrefuses⟩ := refuses_of_routeSnapshot h
        exact ⟨hboard, m, if_pos hstream, hstream ▸ hrefuses⟩
  | emitTrade now m =>
      simp only [fault?] at h
      split at h
      case isFalse => cases h
      case isTrue hstream =>
        obtain ⟨hboard, hrefuses⟩ := refuses_of_emitTrade h
        exact ⟨hboard, m, if_pos hstream, hstream ▸ hrefuses⟩
  | _ => cases h

end Board

/-! ### What registrations gain -/

/-- Reconciling does not count trades. -/
theorem Reconciler.tradeCount_handle (r : Reconciler) (m : Message) :
    (r.handle m).book.tradeCount = r.book.tradeCount := by
  cases m with
  | diff d =>
      cases h : r.isStale d with
      | true => rw [handle_diff_of_stale h]
      | false => rw [handle_diff_of_fresh h]; rfl
  | snapshot s =>
      simp only [handle_snapshot, restore, Book.restore]
      exact List.foldlRecOn (motive := fun book : Book => book.tradeCount = r.book.tradeCount)
        _ _ rfl
        fun book h d _ => h
  | trade t => rfl

namespace Registration

/-- The worker takes one message from its queue, if there is one. -/
theorem length_inbox_worked (config : Config) (now : Nat) (r : Registration) :
    (r.worked config now).inbox.length = r.inbox.length - 1 := by
  unfold worked
  split
  next h => rw [h]; rfl
  next m inbox h =>
    obtain ⟨_, _, _, hafter⟩ := after_frame { r with inbox } config.statsInterval (now, m)
    rw [hafter, h]
    rfl

/-- It does not count trades. -/
theorem tradeCount_worked (config : Config) (now : Nat) (r : Registration) :
    (r.worked config now).book.tradeCount = r.book.tradeCount := by
  unfold worked
  split
  · rfl
  · rw [book, reconciler_after, Reconciler.tradeCount_handle]
    rfl

end Registration

namespace Board

/-- By how much a measure has grown from one registration to the next, if it is still the same. -/
def growth (measure : Registration → Nat) : Option Registration → Option Registration → Nat
  | some r, some r' => if r'.serial = r.serial then measure r' - measure r else 0
  | _, _ => 0

/-- By how much a measure of registrations grows in a step, over all that are there before and
after it. -/
def gain (measure : Registration → Nat) (b : Board) (s : Step) : Nat :=
  (b.registry.names.map fun name =>
    growth measure (b.find? name) ((b.take s).find? name)).sum

/-- **By how much a measure of registrations grows along a run.** -/
def gains (measure : Registration → Nat) (b : Board) (steps : List Step) : Nat :=
  ((b.moments steps).map fun moment => moment.1.gain measure moment.2).sum

theorem gains_concat (measure : Registration → Nat) (b : Board) (steps : List Step) (s : Step) :
    b.gains measure (steps ++ [s]) = b.gains measure steps + (b.takeAll steps).gain measure s := by
  simp [gains, moments_concat]

/-- A registration grows by what the step makes of it; one that is replaced does not grow. -/
theorem growth_take {b : Board} (hb : b.Numbered) (measure : Registration → Nat) {name : String}
    {r : Registration} (hr : b.find? name = some r) (s : Step) :
    growth measure (b.find? name) ((b.take s).find? name) =
      measure (r.take b.config name s) - measure r := by
  cases s with
  | converge now live seen found =>
      rw [hr, show r.take b.config name (.converge now live seen found) = r from rfl, Nat.sub_self]
      cases hr' : (b.take (.converge now live seen found)).find? name with
      | none => rfl
      | some r' =>
          simp only [growth]
          rcases find?_converge_cases b now live seen found hr' with hsame | ⟨_, _, _, hle, -, -⟩
          · obtain rfl := Option.some.inj (hr.symm.trans hsame)
            rw [if_pos rfl, Nat.sub_self]
          · have hlt := hb.given hr
            rw [if_neg (by omega)]
  | _ =>
      rw [find?_take (fun _ _ _ _ => Step.noConfusion), hr, Option.map_some, growth,
        if_pos (Registration.serial_take ..)]

/-- No registration grows that the step makes no larger. -/
theorem gain_eq_zero {b : Board} (hb : b.Numbered) {measure : Registration → Nat} {s : Step}
    (h : ∀ name r, b.find? name = some r → measure (r.take b.config name s) ≤ measure r) :
    b.gain measure s = 0 := by
  refine List.sum_eq_zero fun n hn => ?_
  obtain ⟨name, -, rfl⟩ := List.mem_map.1 hn
  cases hr : b.find? name with
  | none => rfl
  | some r =>
      rw [← hr, growth_take hb measure hr]
      exact Nat.sub_eq_zero_of_le (h name r hr)

/-- If only one registration is made larger, the gain is its own. -/
theorem gain_eq_of_only {b : Board} (hb : b.Numbered) {measure : Registration → Nat} {s : Step}
    {name : String} {r : Registration} (hr : b.find? name = some r)
    (h : ∀ other r, other ≠ name → b.find? other = some r →
      measure (r.take b.config other s) ≤ measure r) :
    b.gain measure s = measure (r.take b.config name s) - measure r := by
  have hmem : name ∈ b.registry.names := NameTable.mem_names_iff.2 (Option.isSome_of_mem hr)
  have hnodup : b.registry.names.Nodup := b.registry.pairwise_names.imp fun h => String.ne_of_lt h
  rw [gain, List.sum_map_eq_nsmul_single name, List.count_eq_one_of_mem hnodup hmem, one_smul,
    growth_take hb measure hr]
  intro other hother _
  cases hr' : b.find? other with
  | none => rfl
  | some r' =>
      rw [← hr', growth_take hb measure hr']
      exact Nat.sub_eq_zero_of_le (h other r' hother hr')

/-- A queue grows by a message that is queued. -/
theorem gain_inbox_of_offered? {b : Board} (hb : b.Numbered) {s : Step} {m : Message}
    {checkAge : Bool} (h : s.offered? = some (m, checkAge)) :
    b.gain (·.inbox.length) s = if (b.offer m checkAge).1 = .queued then 1 else 0 := by
  have hothers : ∀ (name : String) (r : Registration), m.instrument ≠ name →
      r.take b.config name s = r := by
    intro name r hname
    rw [take_of_offered? h, if_neg hname]
  cases hr : b.find? m.instrument with
  | none =>
      rw [offer_of_find?_eq_none hr, if_neg (by simp)]
      refine gain_eq_zero hb fun name r hr' => ?_
      rw [hothers name r (by rintro rfl; rw [hr] at hr'; cases hr')]
  | some r =>
      rw [gain_eq_of_only hb hr fun name r' hname _ => by rw [hothers name r' (Ne.symm hname)],
        take_of_offered? h, if_pos rfl, offer_eq hr, Registration.offered]
      cases r.answer b.config m checkAge <;> simp

/-- No queue grows when nothing is offered. -/
theorem gain_inbox_of_offered?_eq_none {b : Board} (hb : b.Numbered) {s : Step}
    (h : s.offered? = none) : b.gain (·.inbox.length) s = 0 := by
  refine gain_eq_zero hb fun name r _ => ?_
  cases s with
  | routeDiff now m =>
      have hkind : m.kind ≠ .diff := by simpa [Step.offered?] using h
      simp [Registration.take, hkind]
  | routeSnapshot m =>
      have hkind : m.kind ≠ .snapshot := by simpa [Step.offered?] using h
      simp [Registration.take, hkind]
  | emitTrade now m =>
      cases m with
      | trade t => simp only [Registration.take]; split <;> exact Nat.le_refl _
      | _ => exact Nat.le_refl _
  | work now worker =>
      simp only [Registration.take]
      split
      · rw [Registration.length_inbox_worked]
        exact Nat.sub_le _ _
      · exact Nat.le_refl _
  | loseWorker lost => simp only [Registration.take]; split <;> simp [Registration.kill]
  | killWorkers => exact Nat.zero_le _
  | _ => exact Nat.le_refl _

/-- The trades that a book counts grow by one that is noted on it. -/
theorem gain_tradeCount {b : Board} (hb : b.Numbered) (s : Step) :
    b.gain (·.book.tradeCount) s =
      match s with
      | .emitTrade _ (.trade t) => if (b.find? t.instrument).isSome then 1 else 0
      | _ => 0 := by
  -- only trades are counted
  have hother : (∀ now t, s ≠ .emitTrade now (.trade t)) → b.gain (·.book.tradeCount) s = 0 := by
    intro hs
    refine gain_eq_zero hb fun name r _ => Nat.le_of_eq ?_
    cases s with
    | routeDiff now m =>
        simp only [Registration.take]
        split <;> simp [Registration.book]
    | routeSnapshot m =>
        simp only [Registration.take]
        split <;> simp [Registration.book]
    | emitTrade now m =>
        cases m with
        | trade t => exact absurd rfl (hs now t)
        | _ => rfl
    | work now worker =>
        simp only [Registration.take]
        split
        · exact Registration.tradeCount_worked b.config now r
        · rfl
    | loseWorker lost => simp only [Registration.take]; split <;> rfl
    | _ => rfl
  split
  next now t =>
    cases hr : b.find? t.instrument with
    | none =>
        refine gain_eq_zero hb fun name r hr' => ?_
        have hname : t.instrument ≠ name := by
          rintro rfl
          rw [hr] at hr'
          cases hr'
        simp [Registration.take, hname]
    | some r =>
        rw [gain_eq_of_only hb hr]
        · simp [Registration.take, Registration.applyTrade, Registration.book, Book.applyTrade]
        · intro other r' hname _
          simp [Registration.take, Ne.symm hname]
  next hs => exact hother fun now t h => hs now t h

/-! ### The accounts -/

/-- How many messages of a kind a run loses to full queues. -/
def lost (kind : Kind) (b : Board) (steps : List Step) : Nat :=
  (b.losses steps).countP (·.message.kind = kind)

theorem lost_concat (kind : Kind) (b : Board) (steps : List Step) (s : Step) :
    b.lost kind (steps ++ [s]) =
      b.lost kind steps + ((b.takeAll steps).loss? s).toList.countP (·.message.kind = kind) := by
  rw [lost, losses_concat, List.countP_append, lost]

/-- An offer that overflows loses its message. -/
theorem countP_loss? {b : Board} {s : Step} {m : Message} {checkAge : Bool}
    (h : s.offered? = some (m, checkAge)) (kind : Kind) :
    (b.loss? s).toList.countP (·.message.kind = kind) =
      if (b.offer m checkAge).1 = .overflow ∧ m.kind = kind then 1 else 0 := by
  have hlost := isSome_loss? (b := b) h
  cases hl : b.loss? s with
  | none =>
      rw [hl] at hlost
      rw [if_neg fun hoverflow => absurd (hlost.2 hoverflow.1) Bool.false_ne_true]
      rfl
  | some l =>
      rw [hl] at hlost
      simp [message_of_loss? h hl, hlost.1 rfl, List.countP_singleton]

/-- **The accounts of a run are in balance** with the totals at its end. -/
structure Balanced (b : Board) (steps : List Step) (totals : Totals) : Prop where
  /-- A diff is accepted or rejected, or it meets a fault. -/
  diffs : (taken .diff steps).length =
    totals.diffsAccepted + totals.diffsRejected + (b.faults .diff steps).length
  /-- A snapshot is passed on, turned away or lost, or it meets a fault. -/
  snapshots : (taken .snapshot steps).length =
    totals.snapshotsRouted + totals.snapshotsDropped + b.lost .snapshot steps +
      (b.faults .snapshot steps).length
  /-- A trade is accepted or rejected, or it meets a fault. -/
  trades : (taken .trade steps).length =
    totals.tradesAccepted + totals.tradesRejected + (b.faults .trade steps).length
  overflows : totals.queueOverflows = b.lost .diff steps + b.lost .snapshot steps
  /-- A diff that is lost is rejected, too. -/
  rejected : b.lost .diff steps ≤ totals.diffsRejected
  /-- What is accepted has been put into a queue. -/
  queued : totals.diffsAccepted + totals.snapshotsRouted = b.gains (·.inbox.length) steps
  /-- What is accepted has been noted on a book. -/
  traded : totals.tradesAccepted = b.gains (·.book.tradeCount) steps

/-- **The accounts of a step are in balance:** by as much as it takes from the streams, loses, puts
into queues and notes on books, the totals grow. -/
structure BalancedAt (b : Board) (s : Step) : Prop where
  diffs : (s.taken? .diff).toList.length + (b.totals.diffsAccepted + b.totals.diffsRejected) =
    (b.take s).totals.diffsAccepted + (b.take s).totals.diffsRejected +
      (b.fault? .diff s).toList.length
  snapshots :
    (s.taken? .snapshot).toList.length + (b.totals.snapshotsRouted + b.totals.snapshotsDropped) =
      (b.take s).totals.snapshotsRouted + (b.take s).totals.snapshotsDropped +
        (b.loss? s).toList.countP (·.message.kind = .snapshot) +
        (b.fault? .snapshot s).toList.length
  trades : (s.taken? .trade).toList.length + (b.totals.tradesAccepted + b.totals.tradesRejected) =
    (b.take s).totals.tradesAccepted + (b.take s).totals.tradesRejected +
      (b.fault? .trade s).toList.length
  overflows : (b.take s).totals.queueOverflows =
    b.totals.queueOverflows + (b.loss? s).toList.countP (·.message.kind = .diff) +
      (b.loss? s).toList.countP (·.message.kind = .snapshot)
  rejected : b.totals.diffsRejected + (b.loss? s).toList.countP (·.message.kind = .diff) ≤
    (b.take s).totals.diffsRejected
  queued : (b.take s).totals.diffsAccepted + (b.take s).totals.snapshotsRouted =
    b.totals.diffsAccepted + b.totals.snapshotsRouted + b.gain (·.inbox.length) s
  traded : (b.take s).totals.tradesAccepted =
    b.totals.tradesAccepted + b.gain (·.book.tradeCount) s

/-- Snapshots are not asked for their age. -/
theorem offer_ne_stale (b : Board) (m : Message) : (b.offer m false).1 ≠ .stale := by
  intro h
  cases hr : b.find? m.instrument with
  | none =>
      rw [offer_of_find?_eq_none hr] at h
      cases h
  | some r =>
      simp only [offer_eq hr, Registration.answer, Bool.false_and, Bool.false_eq_true,
        if_false] at h
      split at h
      · cases h
      · split at h <;> cases h

section BalancedAt

variable {b : Board} (hb : b.Numbered)

include hb

theorem balancedAt_routeDiff {m : Message} (h : m.kind = .diff) (now : Nat) :
    b.BalancedAt (.routeDiff now m) := by
  have hoffered : (Step.routeDiff now m).offered? = some (m, true) := if_pos h
  have htotals : (b.take (.routeDiff now m)).totals = b.totals.enterDiff (b.offer m true).1 :=
    totals_routeDiff h now
  have hlost := countP_loss? (b := b) hoffered
  have hqueued := gain_inbox_of_offered? hb hoffered
  have htraded := gain_tradeCount hb (.routeDiff now m)
  have hfault := faultOf?_routeDiff (b := b) h now
  constructor <;> simp only [htotals, hlost, hqueued, htraded, hfault, fault?, Step.taken?, h] <;>
    cases (b.offer m true).1 <;> simp [Totals.enterDiff] <;> omega

theorem balancedAt_routeSnapshot {m : Message} (h : m.kind = .snapshot) :
    b.BalancedAt (.routeSnapshot m) := by
  have hoffered : (Step.routeSnapshot m).offered? = some (m, false) := if_pos h
  have htotals : (b.take (.routeSnapshot m)).totals =
      b.totals.enterSnapshot (b.offer m false).1 := totals_routeSnapshot h
  have hlost := countP_loss? (b := b) hoffered
  have hqueued := gain_inbox_of_offered? hb hoffered
  have htraded := gain_tradeCount hb (.routeSnapshot m)
  have hfault := faultOf?_routeSnapshot (b := b) h
  have hfresh := offer_ne_stale b m
  constructor <;> simp only [htotals, hlost, hqueued, htraded, hfault, fault?, Step.taken?, h] <;>
    cases hanswer : (b.offer m false).1 <;> simp_all [Totals.enterSnapshot] <;> omega

theorem balancedAt_emitTrade (now : Nat) (t : Trade) :
    b.BalancedAt (.emitTrade now (.trade t)) := by
  have hoffered : (Step.emitTrade now (.trade t)).offered? = none := rfl
  have htotals : (b.take (.emitTrade now (.trade t))).totals =
      b.totals.enterTrade (b.find? t.instrument).isSome := totals_emitTrade b now t
  have hlost := loss?_of_offered?_eq_none hoffered b
  have hqueued := gain_inbox_of_offered?_eq_none hb hoffered
  have htraded := gain_tradeCount hb (.emitTrade now (.trade t))
  have hfault : (b.emitTrade now (.trade t)).1 = none := by
    simp only [emitTrade]
    split <;> rfl
  constructor <;> simp only [htotals, hlost, hqueued, htraded, hfault, fault?, Step.taken?] <;>
    cases (b.find? t.instrument).isSome <;> simp [Totals.enterTrade] <;> omega

/-- A step that takes nothing from a stream but a fault counts nothing. -/
theorem balancedAt_of_idle {s : Step} (offers : s.offered? = none) (enters : b.enter s = b.totals)
    (trades : ∀ now t, s ≠ .emitTrade now (.trade t))
    (faults : ∀ stream, (b.fault? stream s).isSome = (s.taken? stream).isSome) :
    b.BalancedAt s := by
  have htotals : (b.take s).totals = b.totals := (totals_take b s).trans enters
  have hlost := loss?_of_offered?_eq_none offers b
  have hqueued := gain_inbox_of_offered?_eq_none hb offers
  have htraded : b.gain (·.book.tradeCount) s = 0 := by
    rw [gain_tradeCount hb s]
    split
    next now t => exact absurd rfl (trades now t)
    next => rfl
  have hfaults : ∀ stream,
      (b.fault? stream s).toList.length = (s.taken? stream).toList.length := by
    intro stream
    rw [Option.length_toList, Option.length_toList, faults stream]
  constructor <;> simp [htotals, hlost, hqueued, htraded, hfaults] <;> omega

/-- **Each step keeps the accounts in balance.** -/
theorem balancedAt (s : Step) : b.BalancedAt s := by
  cases s with
  | routeDiff now m =>
      by_cases hkind : m.kind = .diff
      · exact balancedAt_routeDiff hb hkind now
      · refine balancedAt_of_idle hb (if_neg hkind) (if_neg hkind) (by simp) fun stream => ?_
        cases stream <;> simp [fault?, Step.taken?, routeDiff_of_kind_ne hkind, faultOf?]
  | routeSnapshot m =>
      by_cases hkind : m.kind = .snapshot
      · exact balancedAt_routeSnapshot hb hkind
      · refine balancedAt_of_idle hb (if_neg hkind) (if_neg hkind) (by simp) fun stream => ?_
        cases stream <;> simp [fault?, Step.taken?, routeSnapshot_of_kind_ne hkind, faultOf?]
  | emitTrade now m =>
      cases m with
      | trade t => exact balancedAt_emitTrade hb now t
      | _ =>
          refine balancedAt_of_idle hb rfl rfl (by simp) fun stream => ?_
          cases stream <;> rfl
  | _ => exact balancedAt_of_idle hb rfl rfl (by simp) fun stream => rfl

end BalancedAt

/-- A step after a run keeps the accounts in balance. -/
theorem Balanced.concat {b : Board} {steps : List Step} {s : Step}
    (h : b.Balanced steps (b.takeAll steps).totals) (hs : (b.takeAll steps).BalancedAt s) :
    b.Balanced (steps ++ [s]) (b.takeAll (steps ++ [s])).totals := by
  have htaken : ∀ stream, (taken stream (steps ++ [s])).length =
      (taken stream steps).length + (s.taken? stream).toList.length := by
    intro stream
    rw [taken_append, taken_cons, List.length_append, List.length_append]
    rfl
  have hfaults : ∀ stream, (b.faults stream (steps ++ [s])).length =
      (b.faults stream steps).length +
        ((b.takeAll steps).fault? stream s).toList.length := by
    intro stream
    rw [faults_concat, List.length_append]
  rw [takeAll_concat]
  constructor
  case diffs =>
    have := h.diffs
    have := hs.diffs
    rw [htaken, hfaults]
    omega
  case snapshots =>
    have := h.snapshots
    have := hs.snapshots
    rw [htaken, hfaults, lost_concat]
    omega
  case trades =>
    have := h.trades
    have := hs.trades
    rw [htaken, hfaults]
    omega
  case overflows =>
    rw [lost_concat, lost_concat, hs.overflows, h.overflows]
    omega
  case rejected =>
    have := h.rejected
    have := hs.rejected
    rw [lost_concat]
    omega
  case queued => rw [gains_concat, hs.queued, h.queued]
  case traded => rw [gains_concat, hs.traded, h.traded]

/-- **The accounts of a run are in balance.** -/
theorem balanced_takeAll (config : Config) (steps : List Step) :
    (start config).Balanced steps ((start config).takeAll steps).totals := by
  induction steps using List.reverseRecOn with
  | nil => exact ⟨rfl, rfl, rfl, rfl, Nat.le_refl 0, rfl, rfl⟩
  | append_singleton steps s ih =>
      exact ih.concat (balancedAt ((numbered_start config).takeAll steps) s)

/-- No total is larger than the number of the messages that were taken from the streams. -/
theorem Balanced.le_taken {b : Board} {steps : List Step} {totals : Totals}
    (h : b.Balanced steps totals) {n : Nat} (hn : n ∈ totals.counters) :
    n ≤ (taken .diff steps).length + (taken .snapshot steps).length +
      (taken .trade steps).length := by
  have := h.diffs
  have := h.snapshots
  have := h.trades
  have := h.overflows
  have := h.rejected
  simp only [Totals.counters, List.mem_cons, List.not_mem_nil, or_false] at hn
  omega

/-- The snapshot router does not answer that a snapshot is too old. -/
theorem routeSnapshot_ne_stale (b : Board) (m : Message) :
    (b.routeSnapshot m).1 ≠ .ok .stale := by
  by_cases hkind : m.kind = .snapshot
  · have hfresh := offer_ne_stale b m
    rw [routeSnapshot, if_neg (not_not.2 hkind)]
    cases hoffer : b.offer m false with
    | mk answer b' =>
        rw [hoffer] at hfresh
        cases answer with
        | stale => exact absurd rfl hfresh
        | _ => simp
  · simp [routeSnapshot_of_kind_ne hkind]

end Board

namespace Tracker

/-- **The accounts of a tracker are in balance,** in whatever order its tasks act and whatever
happens outside.  What is taken from a stream is what was sent to it, in this order; a message that
meets a fault is on the wrong stream or for a dead worker, and nothing is counted or changed for
it.  No total exceeds the number of messages taken: while these are fewer than a 64-bit counter can
count, none of the counters overflows. -/
theorem balanced_of_moves {config : Config} {directory : Directory} {t : Tracker}
    (h : new config directory = .ok t) (as : List Move) :
    t.board.Balanced (t.trace as) (t.moves as).board.totals ∧
    (∀ stream, (Board.taken stream (t.trace as) ++ (t.moves as).stream stream).Sublist
      (sent stream as)) ∧
    (∀ stream before s after fault, t.trace as = before ++ s :: after →
      (t.board.takeAll before).fault? stream s = some fault →
        (t.board.takeAll before).take s = t.board.takeAll before ∧
        ∃ m, s.taken? stream = some m ∧ (t.board.takeAll before).Refuses stream m fault) ∧
    (∀ m, ((t.moves as).board.routeSnapshot m).1 ≠ .ok .stale) ∧
    ∀ n ∈ (t.moves as).board.totals.counters,
      n ≤ (Board.taken .diff (t.trace as)).length + (Board.taken .snapshot (t.trace as)).length +
        (Board.taken .trade (t.trace as)).length := by
  have hstart : t.board = .start config := congrArg (·.board) (eq_of_new h)
  have hbalanced : t.board.Balanced (t.trace as) (t.moves as).board.totals := by
    rw [board_moves, hstart]
    exact Board.balanced_takeAll config (t.trace as)
  refine ⟨hbalanced, fun stream => taken_sublist_sent h stream as, ?_,
    Board.routeSnapshot_ne_stale _, fun n hn => hbalanced.le_taken hn⟩
  intro stream before s after fault _ hfault
  exact Board.refuses_of_fault? hfault

/-- Every outcome once, with room for one message: a diff is queued and one is lost, a snapshot is
lost, one is queued and one is for nobody, a diff is old, one is for nobody, one is for a dead
worker and one message is no diff, and of the trades one is noted, one is for nobody and one is
none. -/
theorem balanced_of_moves_with_every_outcome :
    let config : Config := { queueCapacity := 1, retryDelay := 0 }
    let update (name : String) (id : UInt64) : Update :=
      { instrument := name, updateId := id, timestamp := 0 }
    let trade (name : String) : Trade :=
      { instrument := name, timestamp := 0, price := 1, size := 1, side := .buy }
    let listing : Listing := { instrument := "A", timestamp := 0, book := .empty "A" }
    let directory : Directory := { catalog := .ofListings [listing] }
    let t : Tracker := { board := .start config, directory }
    let as : List Move := [.start 0, .perform 0 .refresher,
      .send [(.diff, .diff (update "A" 5)), (.diff, .diff (update "A" 6)),
        (.snapshot, .snapshot (update "A" 6)), (.snapshot, .snapshot (update "A" 7)),
        (.snapshot, .snapshot (update "B" 7)), (.diff, .diff (update "A" 4)),
        (.diff, .diff (update "B" 8)), (.diff, .diff (update "A" 9)), (.diff, .trade (trade "A")),
        (.trade, .trade (trade "A")), (.trade, .trade (trade "B")),
        (.trade, .diff (update "A" 9))],
      .perform 0 .diffRouter, .perform 0 .diffRouter, .perform 0 .snapshotRouter,
      .perform 0 (.worker "A" 0), .perform 0 .snapshotRouter, .perform 0 .snapshotRouter,
      .perform 0 .diffRouter, .perform 0 .diffRouter, .loseWorker "A", .perform 0 .diffRouter,
      .perform 0 .diffRouter, .perform 0 .tradeEmitter, .perform 0 .tradeEmitter,
      .perform 0 .tradeEmitter]
    new config directory = .ok t ∧
    (t.moves as).board.totals.counters = [1, 3, 1, 1, 1, 1, 2] ∧
    t.board.faults .diff (t.trace as) =
      [.queueClosed "A", .unexpectedMessage .trade "diff"] ∧
    t.board.faults .trade (t.trace as) = [.unexpectedMessage .diff "trade"] ∧
    t.board.Balanced (t.trace as) (t.moves as).board.totals := by
  intro config update trade listing directory t as
  have hnew : new config directory = .ok t := rfl
  have hcounters : (t.moves as).board.totals.counters = [1, 3, 1, 1, 1, 1, 2] := by
    unfold t
    cbv
  have hdiffs : t.board.faults .diff (t.trace as) =
      [.queueClosed "A", .unexpectedMessage .trade "diff"] := by
    unfold t
    cbv
  have htrades : t.board.faults .trade (t.trace as) = [.unexpectedMessage .diff "trade"] := by
    unfold t
    cbv
  exact ⟨hnew, hcounters, hdiffs, htrades, (balanced_of_moves hnew as).1⟩

end Tracker

end MarketDepth
