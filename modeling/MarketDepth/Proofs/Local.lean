/-
**One registration at a time.**

A step on a board changes one registration or all of them, and what it makes of a registration is a
matter of this registration alone: of its queue, its book, its mark and whether its worker lives.
The other instruments do not come into it, nor do the totals.  Only a refresh cycle does more, as it
registers instruments and retires them; what it leaves registered it leaves as it was.

Main definitions:

* `MarketDepth.Registration.answer`, `MarketDepth.Registration.offered` — how a registration answers
  an offer, and what becomes of it;
* `MarketDepth.Registration.take` — **what a step makes of a registration**;
* `MarketDepth.Board.published` — the instruments that a step publishes.

Main results:

* `MarketDepth.Board.find?_take` — the registry after a step, one instrument at a time;
* `MarketDepth.Board.exists_eq_take` — where a registration with an old number comes from;
* `MarketDepth.Board.resyncs_take` — the resync requests after a step.
-/

import MarketDepth.Proofs.Runs

set_option relaxedAutoImplicit false
set_option autoImplicit false

namespace MarketDepth

open Board (Step)

/-! ### What a step makes of a registration -/

namespace Registration

/-- How the registration answers an offer. -/
def answer (config : Config) (r : Registration) (m : Message) (checkAge : Bool) : Offer :=
  if checkAge && m.updateId?.any (· ≤ r.book.uid) then .stale
  else if r.live = false then .closed
  else if r.inbox.length < config.queueCapacity then .queued
  else .overflow

/-- What an offer makes of the registration. -/
def offered (config : Config) (r : Registration) (m : Message) (checkAge : Bool) : Registration :=
  match r.answer config m checkAge with
  | .queued => { r with inbox := r.inbox ++ [m] }
  | .overflow => { r with resyncPending := true }
  | _ => r

/-- How often an offer publishes the instrument: once if the message is lost, unless it is a diff
and the mark is set already. -/
def requestsOffered (config : Config) (r : Registration) (m : Message) (checkAge : Bool) : Nat :=
  if r.answer config m checkAge = .overflow ∧ (r.resyncPending = false ∨ m.kind = .snapshot) then 1
  else 0

/-- The worker handles the first message of its queue, if there is one. -/
def worked (config : Config) (now : Nat) (r : Registration) : Registration :=
  match r.inbox with
  | [] => r
  | m :: inbox => { r with inbox }.after config.statsInterval (now, m)

/-- **What a step makes of the registration of an instrument** that it does not register anew or
retire. -/
def take (config : Config) (instrument : String) (r : Registration) : Step → Registration
  | .routeDiff _ m =>
      if m.kind = .diff ∧ m.instrument = instrument then r.offered config m true else r
  | .routeSnapshot m =>
      if m.kind = .snapshot ∧ m.instrument = instrument then r.offered config m false else r
  | .emitTrade _ (.trade t) =>
      if t.instrument = instrument then r.applyTrade t.execution else r
  | .work now worker => if worker = instrument then r.worked config now else r
  | .loseWorker lost => if lost = instrument then r.kill else r
  | .killWorkers => r.kill
  | _ => r

/-- An offer concerns the queue and the mark only. -/
theorem offered_frame (config : Config) (r : Registration) (m : Message) (checkAge : Bool) :
    ∃ inbox resyncPending, r.offered config m checkAge = { r with inbox, resyncPending } := by
  unfold offered
  split <;> exact ⟨_, _, rfl⟩

/-- The worker leaves number and name alone, and lives on. -/
theorem worked_frame (config : Config) (now : Nat) (r : Registration) :
    ∃ reconciler inbox resyncPending tally, r.worked config now =
      { r with reconciler, inbox, resyncPending, tally } := by
  unfold worked
  split
  · exact ⟨_, _, _, _, rfl⟩
  next m inbox _ =>
    obtain ⟨_, _, _, h⟩ := after_frame { r with inbox } config.statsInterval (now, m)
    exact ⟨_, _, _, _, h⟩

@[simp] theorem serial_offered (config : Config) (r : Registration) (m : Message)
    (checkAge : Bool) : (r.offered config m checkAge).serial = r.serial := by
  obtain ⟨_, _, h⟩ := offered_frame config r m checkAge
  rw [h]

@[simp] theorem reconciler_offered (config : Config) (r : Registration) (m : Message)
    (checkAge : Bool) : (r.offered config m checkAge).reconciler = r.reconciler := by
  obtain ⟨_, _, h⟩ := offered_frame config r m checkAge
  rw [h]

@[simp] theorem live_offered (config : Config) (r : Registration) (m : Message) (checkAge : Bool) :
    (r.offered config m checkAge).live = r.live := by
  obtain ⟨_, _, h⟩ := offered_frame config r m checkAge
  rw [h]

@[simp] theorem serial_worked (config : Config) (now : Nat) (r : Registration) :
    (r.worked config now).serial = r.serial := by
  obtain ⟨_, _, _, _, h⟩ := worked_frame config now r
  rw [h]

@[simp] theorem live_worked (config : Config) (now : Nat) (r : Registration) :
    (r.worked config now).live = r.live := by
  obtain ⟨_, _, _, _, h⟩ := worked_frame config now r
  rw [h]

@[simp] theorem serial_take (config : Config) (instrument : String) (r : Registration) (s : Step) :
    (r.take config instrument s).serial = r.serial := by
  unfold take
  split
  · split <;> simp
  · split <;> simp
  · split <;> rfl
  · split <;> simp
  · split <;> rfl
  · rfl
  · rfl

/-- Only two kinds of steps end a worker. -/
theorem live_take {config : Config} {instrument : String} {r : Registration} {s : Step}
    (hlose : s ≠ .loseWorker instrument) (hkill : s ≠ .killWorkers) :
    (r.take config instrument s).live = r.live := by
  unfold take
  split
  · split <;> simp
  · split <;> simp
  · split <;> rfl
  · split <;> simp
  next lost =>
    rw [if_neg]
    rintro rfl
    exact hlose rfl
  next => exact absurd rfl hkill
  next => rfl

end Registration

namespace Board

/-! ### The registry after a step -/

/-- An offer is a matter of the registration of the message's instrument. -/
theorem offer_eq {b : Board} {m : Message} {r : Registration} (h : b.find? m.instrument = some r)
    (checkAge : Bool) :
    b.offer m checkAge = (r.answer b.config m checkAge,
      match r.answer b.config m checkAge with
      | .queued => b.setRegistration m.instrument { r with inbox := r.inbox ++ [m] }
      | .overflow => b.overflow r m
      | _ => b) := by
  rw [offer_of_find? h, Registration.answer]
  split
  · rfl
  · split
    · rfl
    · split <;> rfl

theorem find?_offer (b : Board) (m : Message) (checkAge : Bool) (instrument : String) :
    (b.offer m checkAge).2.find? instrument =
      if m.instrument = instrument then
        (b.find? instrument).map (·.offered b.config m checkAge)
      else b.find? instrument := by
  cases hm : b.find? m.instrument with
  | none =>
      rw [offer_of_find?_eq_none hm]
      split
      case isTrue hinst => rw [← hinst, hm]; rfl
      case isFalse => rfl
  | some r =>
      rw [offer_eq hm]
      by_cases hinst : m.instrument = instrument
      · subst hinst
        rw [if_pos rfl, hm, Option.map_some, Registration.offered]
        cases r.answer b.config m checkAge with
        | queued =>
            rw [find?_setRegistration, if_pos rfl, hm]
            rfl
        | overflow =>
            rw [find?_overflow, if_pos rfl, hm]
            rfl
        | _ => exact hm
      · rw [if_neg hinst]
        have hne : instrument ≠ m.instrument := Ne.symm hinst
        cases r.answer b.config m checkAge with
        | queued => exact (find?_setRegistration _ _ _ _).trans (if_neg hne)
        | overflow => exact (find?_overflow _ _ _ _).trans (if_neg hne)
        | _ => rfl

theorem find?_emitTrade (b : Board) (now : Nat) (t : Trade) (instrument : String) :
    (b.emitTrade now (.trade t)).2.find? instrument =
      if t.instrument = instrument then (b.find? instrument).map (·.applyTrade t.execution)
      else b.find? instrument := by
  simp only [emitTrade]
  split
  case h_1 r hr =>
    rw [find?_congr (registry_reportTrades _ now)]
    change (b.setRegistration t.instrument (r.applyTrade t.execution)).find? instrument = _
    rw [find?_setRegistration]
    by_cases hinst : t.instrument = instrument
    · rw [if_pos hinst.symm, if_pos hinst, ← hinst, hr]
      rfl
    · rw [if_neg (Ne.symm hinst), if_neg hinst]
  case h_2 hnone =>
    rw [find?_congr (registry_reportTrades _ now)]
    change b.find? instrument = _
    split
    case isTrue hinst => rw [← hinst, hnone]; rfl
    case isFalse => rfl

theorem find?_work (b : Board) (now : Nat) (worker instrument : String) :
    (b.work now worker).2.find? instrument =
      if worker = instrument then (b.find? instrument).map (·.worked b.config now)
      else b.find? instrument := by
  cases hr : b.find? worker with
  | none =>
      have hwork : b.work now worker = (none, b) := by simp [work, hr]
      rw [hwork]
      split
      case isTrue hinst => rw [← hinst, hr]; rfl
      case isFalse => rfl
  | some r =>
      cases hm : r.inbox with
      | nil =>
          rw [work_of_inbox_eq_nil hr hm]
          split
          case isTrue hinst => rw [← hinst, hr, Option.map_some, Registration.worked, hm]
          case isFalse => rfl
      | cons m inbox =>
          rw [find?_congr (registry_work hr hm), find?_setRegistration]
          by_cases hinst : worker = instrument
          · subst hinst
            rw [if_pos rfl, if_pos rfl, hr, Option.map_some, Option.map_some, Registration.worked,
              hm]
          · rw [if_neg (Ne.symm hinst), if_neg hinst]

/-- **The registry after a step, one instrument at a time.** -/
theorem find?_take {s : Step} (h : ∀ now live seen found, s ≠ .converge now live seen found)
    (b : Board) (instrument : String) :
    (b.take s).find? instrument = (b.find? instrument).map (·.take b.config instrument s) := by
  cases s with
  | routeDiff now m =>
      simp only [take, Registration.take]
      by_cases hkind : m.kind = .diff
      · rw [find?_congr (routeDiff_of_kind hkind now).2, find?_offer]
        by_cases hinst : m.instrument = instrument
        · simp [hkind, hinst]
        · simp [hinst]
      · simp [routeDiff_of_kind_ne hkind, hkind]
  | routeSnapshot m =>
      simp only [take, Registration.take]
      by_cases hkind : m.kind = .snapshot
      · rw [find?_congr (routeSnapshot_of_kind hkind).2, find?_offer]
        by_cases hinst : m.instrument = instrument
        · simp [hkind, hinst]
        · simp [hinst]
      · simp [routeSnapshot_of_kind_ne hkind, hkind]
  | emitTrade now m =>
      cases m with
      | diff d => simp [take, emitTrade, Registration.take]
      | snapshot d => simp [take, emitTrade, Registration.take]
      | trade t =>
          simp only [take, Registration.take, find?_emitTrade]
          split <;> simp
  | work now worker =>
      simp only [take, Registration.take, find?_work]
      split <;> simp
  | converge now live seen found => exact absurd rfl (h now live seen found)
  | loseWorker lost =>
      simp only [take, Registration.take, find?_loseWorker]
      by_cases hinst : lost = instrument
      · simp [hinst]
      · simp [hinst, Ne.symm hinst]
  | killWorkers =>
      simp only [take, Registration.take]
      exact find?_killWorkers b instrument
  | _ => simp [take, Registration.take, find?]

/-- A registration whose number is not new was there before the step, which made of it what a step
makes of a registration. -/
theorem exists_eq_take {b : Board} {s : Step} {instrument : String} {r : Registration}
    (h : (b.take s).find? instrument = some r) (old : r.serial < b.nextSerial) :
    ∃ r₀, b.find? instrument = some r₀ ∧ r = r₀.take b.config instrument s := by
  cases s with
  | converge now live seen found =>
      rcases find?_converge_cases b now live seen found h with hr | ⟨_, _, _, hnew, _, _⟩
      · exact ⟨r, hr, rfl⟩
      · exact absurd hnew (Nat.not_le.2 old)
  | _ =>
      rw [find?_take (fun _ _ _ _ => Step.noConfusion)] at h
      obtain ⟨r₀, hr₀, rfl⟩ := Option.map_eq_some_iff.1 h
      exact ⟨r₀, hr₀, rfl⟩

/-! ### The resync requests after a step -/

/-- How often an offer publishes the instrument of its message. -/
def requestsOffered (b : Board) (m : Message) (checkAge : Bool) : Nat :=
  match b.find? m.instrument with
  | none => 0
  | some r => r.requestsOffered b.config m checkAge

/-- **The instruments that a step publishes.** -/
def published (b : Board) : Step → List String
  | .routeDiff _ m =>
      if m.kind = .diff then List.replicate (b.requestsOffered m true) m.instrument else []
  | .routeSnapshot m =>
      if m.kind = .snapshot then List.replicate (b.requestsOffered m false) m.instrument else []
  | _ => []

/-- A loss publishes the instrument if the mark was clear, or if the message was a snapshot. -/
theorem resyncs_overflow (b : Board) (r : Registration) (m : Message) :
    (b.overflow r m).resyncs =
      if r.resyncPending = false ∨ m.kind = .snapshot then b.resyncs ++ [m.instrument]
      else b.resyncs := by
  simp only [overflow]
  split
  case isTrue hclear => rw [if_pos (.inl hclear)]; rfl
  case isFalse hset =>
    split
    case isTrue hsnapshot => rw [if_pos (.inr hsnapshot)]; rfl
    case isFalse hother => rw [if_neg (by simp [hset, hother])]; rfl

theorem resyncs_offer (b : Board) (m : Message) (checkAge : Bool) :
    (b.offer m checkAge).2.resyncs =
      b.resyncs ++ List.replicate (b.requestsOffered m checkAge) m.instrument := by
  unfold requestsOffered
  cases hm : b.find? m.instrument with
  | none => simp [offer_of_find?_eq_none hm]
  | some r =>
      rw [offer_eq hm]
      simp only [Registration.requestsOffered]
      cases r.answer b.config m checkAge with
      | overflow =>
          simp only [resyncs_overflow, true_and]
          split <;> simp
      | _ => simp [setRegistration]

theorem resyncs_reportDiffs (b : Board) (now : Nat) : (b.reportDiffs now).resyncs = b.resyncs := by
  unfold reportDiffs; split <;> rfl

theorem resyncs_reportTrades (b : Board) (now : Nat) :
    (b.reportTrades now).resyncs = b.resyncs := by
  unfold reportTrades; split <;> rfl

theorem resyncs_routeDiff {b : Board} {m : Message} (h : m.kind = .diff) (now : Nat) :
    (b.routeDiff now m).2.resyncs = (b.offer m true).2.resyncs := by
  have hclosed := offer_closed b m true
  rw [routeDiff, if_neg (not_not.2 h)]
  cases hoffer : b.offer m true with
  | mk outcome b' =>
      rw [hoffer] at hclosed
      cases outcome with
      | closed => rw [hclosed rfl]
      | _ => exact resyncs_reportDiffs _ now

theorem resyncs_routeSnapshot {b : Board} {m : Message} (h : m.kind = .snapshot) :
    (b.routeSnapshot m).2.resyncs = (b.offer m false).2.resyncs := by
  have hclosed := offer_closed b m false
  rw [routeSnapshot, if_neg (not_not.2 h)]
  cases hoffer : b.offer m false with
  | mk outcome b' =>
      rw [hoffer] at hclosed
      cases outcome with
      | closed => rw [hclosed rfl]
      | _ => rfl

theorem resyncs_archive (b : Board) (name : String) : (b.archive name).resyncs = b.resyncs := by
  unfold archive; split <;> rfl

theorem resyncs_foldl_register (now : Nat) (live : Bool) (ls : List Listing) (b : Board) :
    (ls.foldl (·.register now live) b).resyncs = b.resyncs := by
  induction ls generalizing b with
  | nil => rfl
  | cons l ls ih =>
      rw [List.foldl_cons, ih]
      exact resyncs_archive b l.instrument

theorem resyncs_foldl_retire (gone : List String) (b : Board) :
    (gone.foldl (·.retire) b).resyncs = b.resyncs := by
  induction gone generalizing b with
  | nil => rfl
  | cons name gone ih =>
      rw [List.foldl_cons, ih]
      exact resyncs_archive b name

/-- A cycle publishes nothing. -/
theorem resyncs_converge (b : Board) (now : Nat) (live : Bool) (seen : List String)
    (found : Catalog) : (b.converge now live seen found).2.resyncs = b.resyncs := by
  have hfold : ∀ gone : List String,
      (gone.foldl (·.retire) ((newListings seen found).foldl (·.register now live) b)).resyncs =
        b.resyncs := by
    intro gone
    rw [resyncs_foldl_retire, resyncs_foldl_register]
  unfold converge
  dsimp only
  split
  · exact hfold _
  · exact hfold _

/-- **The resync requests after a step** that is not the reading of them. -/
theorem resyncs_take {s : Step} (h : s ≠ .takeResyncs) (b : Board) :
    (b.take s).resyncs = b.resyncs ++ b.published s := by
  cases s with
  | routeDiff now m =>
      simp only [take, published]
      by_cases hkind : m.kind = .diff
      · rw [resyncs_routeDiff hkind, resyncs_offer, if_pos hkind]
      · simp [routeDiff_of_kind_ne hkind, hkind]
  | routeSnapshot m =>
      simp only [take, published]
      by_cases hkind : m.kind = .snapshot
      · rw [resyncs_routeSnapshot hkind, resyncs_offer, if_pos hkind]
      · simp [routeSnapshot_of_kind_ne hkind, hkind]
  | emitTrade now m =>
      simp only [published, List.append_nil]
      cases m with
      | trade t =>
          simp only [take, emitTrade]
          split <;> exact resyncs_reportTrades _ now
      | _ => rfl
  | work now worker =>
      simp only [take, published, List.append_nil, work]
      split
      · rfl
      · split
        · rfl
        · split <;> rfl
  | converge now live seen found =>
      simp only [published, List.append_nil]
      exact resyncs_converge b now live seen found
  | takeResyncs => exact absurd rfl h
  | _ => exact (List.append_nil _).symm

end Board

end MarketDepth
