/-
**Messages lost to full queues.**

A router offers each message of its kind to the queue of the message's instrument.  If the worker
lives and the queue is full, the message is lost.  A loss is noted here with the registration that
it befell and with what its mark was at that time, since on the mark depends whether a new snapshot
is asked for.

Main definitions:

* `MarketDepth.Board.moments` — the steps of a run, each with the board that it is taken on;
* `MarketDepth.Board.Step.offered?` — the message that a step offers to a queue;
* `MarketDepth.Loss`, `MarketDepth.Board.losses` — **the messages that a run loses**, in the order
  in which they are lost.

Main results:

* `MarketDepth.Board.isSome_loss?` — a message is lost exactly when its offer overflows;
* `MarketDepth.Board.published_eq` — what a step publishes is what its loss asks for.
-/

import MarketDepth.Proofs.Books

set_option relaxedAutoImplicit false
set_option autoImplicit false

namespace MarketDepth

open Board (Step)

/-- **A message lost to the full queue of a registration.** -/
structure Loss where
  message : Message
  /-- The number of the registration. -/
  serial : Nat
  /-- The mark was set already when the message was lost. -/
  marked : Bool
  deriving DecidableEq

namespace Loss

/-- The loss befell this registration. -/
def befell (instrument : String) (serial : Nat) (l : Loss) : Bool :=
  l.message.instrument = instrument ∧ l.serial = serial

/-- The loss asks for a new snapshot: it found the mark clear, or what was lost is a snapshot. -/
def asks (l : Loss) : Bool :=
  !l.marked || l.message.kind = .snapshot

end Loss

namespace Board

/-! ### Runs, moment by moment -/

/-- **The steps of a run,** each with the board that it is taken on. -/
def moments (b : Board) : List Step → List (Board × Step)
  | [] => []
  | s :: steps => (b, s) :: (b.take s).moments steps

theorem moments_append (b : Board) (steps steps' : List Step) :
    b.moments (steps ++ steps') = b.moments steps ++ (b.takeAll steps).moments steps' := by
  induction steps generalizing b with
  | nil => rfl
  | cons s steps ih => rw [List.cons_append, moments, moments, ih, List.cons_append, takeAll_cons]

theorem moments_concat (b : Board) (steps : List Step) (s : Step) :
    b.moments (steps ++ [s]) = b.moments steps ++ [(b.takeAll steps, s)] :=
  moments_append b steps [s]

/-- A moment of a run is one of its steps, on the board that the steps before it lead to. -/
theorem mem_moments_iff {b : Board} {steps : List Step} {moment : Board × Step} :
    moment ∈ b.moments steps ↔ ∃ before after, steps = before ++ moment.2 :: after ∧
      moment.1 = b.takeAll before := by
  constructor
  · intro h
    induction steps generalizing b with
    | nil => cases h
    | cons s steps ih =>
        rcases List.mem_cons.1 h with rfl | h
        · exact ⟨[], steps, rfl, rfl⟩
        · obtain ⟨before, after, rfl, hboard⟩ := ih h
          exact ⟨s :: before, after, rfl, hboard⟩
  · rintro ⟨before, after, rfl, hboard⟩
    rw [moments_append, moments, ← hboard]
    exact List.mem_append_right _ List.mem_cons_self

/-! ### Losses -/

/-- The message that a router offers to the queue of its instrument in a step, and whether the
offer goes by the message's age.  What is on the wrong stream is not offered. -/
def Step.offered? : Step → Option (Message × Bool)
  | .routeDiff _ m => if m.kind = .diff then some (m, true) else none
  | .routeSnapshot m => if m.kind = .snapshot then some (m, false) else none
  | _ => none

/-- The message that a step loses to a full queue. -/
def loss? (b : Board) (s : Step) : Option Loss :=
  s.offered?.bind fun offered =>
    if (b.offer offered.1 offered.2).1 = .overflow then
      (b.find? offered.1.instrument).map fun r =>
        { message := offered.1, serial := r.serial, marked := r.resyncPending }
    else none

/-- **The messages that a run loses to full queues,** in the order in which they are lost. -/
def losses (b : Board) (steps : List Step) : List Loss :=
  (b.moments steps).filterMap fun moment => moment.1.loss? moment.2

theorem losses_cons (b : Board) (s : Step) (steps : List Step) :
    b.losses (s :: steps) = (b.loss? s).toList ++ (b.take s).losses steps := by
  rw [losses, moments, List.filterMap_cons]
  cases b.loss? s <;> rfl

theorem losses_append (b : Board) (steps steps' : List Step) :
    b.losses (steps ++ steps') = b.losses steps ++ (b.takeAll steps).losses steps' := by
  rw [losses, moments_append, List.filterMap_append]
  rfl

theorem losses_concat (b : Board) (steps : List Step) (s : Step) :
    b.losses (steps ++ [s]) = b.losses steps ++ ((b.takeAll steps).loss? s).toList := by
  have hnil : ((b.takeAll steps).take s).losses [] = [] := rfl
  rw [losses_append, losses_cons, hnil, List.append_nil]

theorem loss?_eq_some_iff {b : Board} {s : Step} {l : Loss} :
    b.loss? s = some l ↔ ∃ m checkAge r, s.offered? = some (m, checkAge) ∧
      b.find? m.instrument = some r ∧ r.answer b.config m checkAge = .overflow ∧
      l = { message := m, serial := r.serial, marked := r.resyncPending } := by
  unfold loss?
  constructor
  · intro h
    obtain ⟨⟨m, checkAge⟩, hoffered, h⟩ := Option.bind_eq_some_iff.1 h
    split at h
    case isTrue hanswer =>
      obtain ⟨r, hr, rfl⟩ := Option.map_eq_some_iff.1 h
      rw [offer_eq hr] at hanswer
      exact ⟨m, checkAge, r, hoffered, hr, hanswer, rfl⟩
    case isFalse => cases h
  · rintro ⟨m, checkAge, r, hoffered, hr, hanswer, rfl⟩
    rw [hoffered, Option.bind_some, if_pos (by rw [offer_eq hr, hanswer]), hr, Option.map_some]

/-- A step that offers nothing loses nothing. -/
theorem loss?_of_offered?_eq_none {s : Step} (h : s.offered? = none) (b : Board) :
    b.loss? s = none := by
  rw [loss?, h, Option.bind_none]

/-- **A message is lost exactly when its offer overflows.** -/
theorem isSome_loss? {b : Board} {s : Step} {m : Message} {checkAge : Bool}
    (h : s.offered? = some (m, checkAge)) :
    (b.loss? s).isSome = true ↔ (b.offer m checkAge).1 = .overflow := by
  rw [loss?, h, Option.bind_some]
  cases hr : b.find? m.instrument with
  | none => simp [offer_of_find?_eq_none hr]
  | some r => split <;> simp_all

/-- What a step loses is what it offers. -/
theorem message_of_loss? {b : Board} {s : Step} {m : Message} {checkAge : Bool} {l : Loss}
    (h : s.offered? = some (m, checkAge)) (hl : b.loss? s = some l) : l.message = m := by
  obtain ⟨m', checkAge', r, hoffered, -, -, rfl⟩ := loss?_eq_some_iff.1 hl
  rw [h] at hoffered
  cases hoffered
  rfl

/-- What a step that offers a message makes of a registration. -/
theorem take_of_offered? {s : Step} {m : Message} {checkAge : Bool}
    (h : s.offered? = some (m, checkAge)) (config : Config) (name : String) (r : Registration) :
    r.take config name s = if m.instrument = name then r.offered config m checkAge else r := by
  cases s with
  | routeDiff now m' =>
      simp only [Step.offered?] at h
      split at h
      case isFalse => cases h
      case isTrue hkind =>
        cases h
        simp [Registration.take, hkind]
  | routeSnapshot m' =>
      simp only [Step.offered?] at h
      split at h
      case isFalse => cases h
      case isTrue hkind =>
        cases h
        simp [Registration.take, hkind]
  | _ => cases h

/-! ### What losses ask for -/

/-- **What a step publishes is what its loss asks for.** -/
theorem published_eq (b : Board) (s : Step) :
    b.published s =
      ((b.loss? s).filter (·.asks)).toList.map (·.message.instrument) := by
  -- an offer publishes as often as the loss asks
  have hoffer : ∀ m checkAge, s.offered? = some (m, checkAge) →
      List.replicate (b.requestsOffered m checkAge) m.instrument =
        ((b.loss? s).filter (·.asks)).toList.map (·.message.instrument) := by
    intro m checkAge hoffered
    rw [loss?, hoffered, Option.bind_some, requestsOffered]
    cases hr : b.find? m.instrument with
    | none => simp
    | some r =>
        simp only [Registration.requestsOffered, offer_eq hr, Option.map_some]
        by_cases hanswer : r.answer b.config m checkAge = .overflow
        · by_cases hasks : r.resyncPending = false ∨ m.kind = .snapshot
          · simp [hanswer, hasks, Loss.asks, Option.filter]
          · simp [hanswer, hasks, Loss.asks, Option.filter]
        · simp [hanswer]
  have hnone : s.offered? = none →
      ((b.loss? s).filter (·.asks)).toList.map (·.message.instrument) = [] := by
    intro h
    rw [loss?_of_offered?_eq_none h]
    rfl
  cases s with
  | routeDiff now m =>
      simp only [published]
      split
      case isTrue hkind => exact hoffer m true (if_pos hkind)
      case isFalse hkind => exact (hnone (if_neg hkind)).symm
  | routeSnapshot m =>
      simp only [published]
      split
      case isTrue hkind => exact hoffer m false (if_pos hkind)
      case isFalse hkind => exact (hnone (if_neg hkind)).symm
  | _ => exact (hnone rfl).symm

end Board

end MarketDepth
