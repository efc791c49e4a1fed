/-
**Runs of a board.**

What is known about a registration in any order of steps follows from what a single step can do to
it, by one induction along the run.  The induction carries the fates of the messages along, so that
a property may tie a registration to its past; and since serial numbers are not used twice, a new
registration has no past.

Main definitions:

* `MarketDepth.Registration.Proper` — what holds of a registration at any time.

Main results:

* `MarketDepth.Board.config_take`, `MarketDepth.Board.nextSerial_le_take` — what steps leave alone;
* `MarketDepth.Board.history_induction` — **what every change keeps holds after every run**;
* `MarketDepth.Board.proper_of_find?` — registrations are proper after every run.
-/

import MarketDepth.Proofs.Steps

set_option relaxedAutoImplicit false
set_option autoImplicit false

namespace MarketDepth

/-! ### Registrations at any time -/

namespace Registration

/-- **What holds of the registration of an instrument at any time.** -/
structure Proper (r : Registration) (config : Config) (instrument : String) : Prop where
  named : r.instrument = instrument
  /-- Not more waits than the queue has room for. -/
  room : r.inbox.length ≤ config.queueCapacity
  /-- What waits is a diff or a snapshot for the instrument. -/
  addressed : ∀ m ∈ r.inbox, m.instrument = instrument ∧ m.kind ≠ .trade
  /-- For a worker that has ended nothing waits. -/
  idle : r.live = false → r.inbox = []

theorem proper_start (config : Config) (instrument : String) (serial : Nat) (book : Book)
    (now : Nat) (live : Bool) :
    (start serial instrument book config.windowSize now live).Proper config instrument where
  named := rfl
  room := Nat.zero_le _
  addressed := fun _ hm => absurd hm List.not_mem_nil
  idle := fun _ => rfl

theorem Proper.change {config : Config} {instrument : String} {r r' : Registration}
    {fate : Option Fate} (hr : r.Proper config instrument)
    (h : r.Change config instrument fate r') : r'.Proper config instrument := by
  cases h with
  | keep => exact hr
  | stale => exact hr
  | @queue m here numbered live room =>
      refine ⟨hr.named, ?_, ?_, ?_⟩
      · simpa using room
      · intro m' hm'
        rcases List.mem_append.1 hm' with hm' | hm'
        · exact hr.addressed m' hm'
        · rw [List.mem_singleton.1 hm']
          exact ⟨here, numbered⟩
      · intro dead
        rw [live] at dead
        cases dead
  | lose => exact ⟨hr.named, hr.room, hr.addressed, hr.idle⟩
  | @handle m inbox next now =>
      obtain ⟨_, _, _, h⟩ := after_frame { r with inbox } config.statsInterval (now, m)
      rw [h]
      refine ⟨hr.named, ?_, ?_, ?_⟩
      · have hroom := hr.room
        rw [next] at hroom
        exact Nat.le_of_succ_le hroom
      · intro m' hm'
        refine hr.addressed m' ?_
        rw [next]
        exact List.mem_cons_of_mem m hm'
      · intro dead
        have hidle := hr.idle dead
        rw [next] at hidle
        cases hidle
  | trade => exact ⟨hr.named, hr.room, hr.addressed, hr.idle⟩
  | kill => exact ⟨hr.named, Nat.zero_le _, fun _ hm => absurd hm List.not_mem_nil, fun _ => rfl⟩

end Registration

namespace Board

/-! ### What steps leave alone -/

/-- Two boards agree on the settings, the next serial number and the books of the past. -/
structure SameFrame (b b' : Board) : Prop where
  config : b'.config = b.config
  nextSerial : b'.nextSerial = b.nextSerial
  retired : b'.retired = b.retired

theorem SameFrame.refl (b : Board) : b.SameFrame b :=
  ⟨rfl, rfl, rfl⟩

theorem SameFrame.trans {b b' b'' : Board} (h : b.SameFrame b') (h' : b'.SameFrame b'') :
    b.SameFrame b'' :=
  ⟨h'.config.trans h.config, h'.nextSerial.trans h.nextSerial, h'.retired.trans h.retired⟩

theorem sameFrame_offer (b : Board) (m : Message) (checkAge : Bool) :
    b.SameFrame (b.offer m checkAge).2 := by
  unfold offer
  split
  · exact .refl b
  · split
    · exact .refl b
    · split
      · exact .refl b
      · split
        · exact ⟨rfl, rfl, rfl⟩
        · unfold overflow
          dsimp only
          split
          · exact ⟨rfl, rfl, rfl⟩
          · split <;> exact ⟨rfl, rfl, rfl⟩

theorem sameFrame_reportDiffs (b : Board) (now : Nat) : b.SameFrame (b.reportDiffs now) := by
  unfold reportDiffs; split <;> exact ⟨rfl, rfl, rfl⟩

theorem sameFrame_reportTrades (b : Board) (now : Nat) : b.SameFrame (b.reportTrades now) := by
  unfold reportTrades; split <;> exact ⟨rfl, rfl, rfl⟩

theorem sameFrame_routeDiff (b : Board) (now : Nat) (m : Message) :
    b.SameFrame (b.routeDiff now m).2 := by
  have hoffer := sameFrame_offer b m true
  unfold routeDiff
  split
  · exact .refl b
  · split
    · exact .refl b
    case h_2 b' h =>
      rw [h] at hoffer
      refine .trans (hoffer.trans ?_) (sameFrame_reportDiffs _ now)
      exact ⟨rfl, rfl, rfl⟩
    case h_3 b' _ _ h =>
      rw [h] at hoffer
      refine .trans (hoffer.trans ?_) (sameFrame_reportDiffs _ now)
      exact ⟨rfl, rfl, rfl⟩

theorem sameFrame_routeSnapshot (b : Board) (m : Message) :
    b.SameFrame (b.routeSnapshot m).2 := by
  have hoffer := sameFrame_offer b m false
  unfold routeSnapshot
  split
  · exact .refl b
  · split
    · exact .refl b
    all_goals
      rename_i h
      rw [h] at hoffer
      exact hoffer.trans ⟨rfl, rfl, rfl⟩

theorem sameFrame_emitTrade (b : Board) (now : Nat) (m : Message) :
    b.SameFrame (b.emitTrade now m).2 := by
  cases m with
  | diff d => exact .refl b
  | snapshot s => exact .refl b
  | trade t =>
      simp only [emitTrade]
      split
      · refine .trans ?_ (sameFrame_reportTrades _ now)
        exact ⟨rfl, rfl, rfl⟩
      · refine .trans ?_ (sameFrame_reportTrades _ now)
        exact ⟨rfl, rfl, rfl⟩

theorem sameFrame_work (b : Board) (now : Nat) (instrument : String) :
    b.SameFrame (b.work now instrument).2 := by
  unfold work
  split
  · exact .refl b
  · split
    · exact .refl b
    · dsimp only
      split <;> exact ⟨rfl, rfl, rfl⟩

/-- Only a refresh cycle gives out serial numbers, and only a cycle retires books. -/
theorem sameFrame_take {s : Step} (h : ∀ now live seen found, s ≠ .converge now live seen found)
    (b : Board) : b.SameFrame (b.take s) := by
  cases s with
  | routeDiff now m => exact sameFrame_routeDiff b now m
  | routeSnapshot m => exact sameFrame_routeSnapshot b m
  | emitTrade now m => exact sameFrame_emitTrade b now m
  | work now instrument => exact sameFrame_work b now instrument
  | converge now live seen found => exact absurd rfl (h now live seen found)
  | _ => exact ⟨rfl, rfl, rfl⟩

@[simp] theorem config_take (b : Board) (s : Step) : (b.take s).config = b.config := by
  cases s with
  | converge now live seen found => exact config_converge b now live seen found
  | _ => exact (sameFrame_take (fun _ _ _ _ => Step.noConfusion) b).config

/-- Serial numbers are not used twice. -/
theorem nextSerial_le_take (b : Board) (s : Step) : b.nextSerial ≤ (b.take s).nextSerial := by
  cases s with
  | converge now live seen found =>
      rw [take, nextSerial_converge]
      exact Nat.le_add_right _ _
  | _ => exact Nat.le_of_eq (sameFrame_take (fun _ _ _ _ => Step.noConfusion) b).nextSerial.symm

@[simp] theorem config_takeAll (b : Board) (steps : List Step) :
    (b.takeAll steps).config = b.config := by
  induction steps generalizing b with
  | nil => rfl
  | cons s steps ih => rw [takeAll_cons, ih, config_take]

theorem nextSerial_le_takeAll (b : Board) (steps : List Step) :
    b.nextSerial ≤ (b.takeAll steps).nextSerial := by
  induction steps generalizing b with
  | nil => exact Nat.le_refl _
  | cons s steps ih => exact Nat.le_trans (nextSerial_le_take b s) (ih (b.take s))

/-! ### Runs -/

/-- Registrations have numbers that have been given out. -/
theorem serial_lt_take {b : Board}
    (hb : ∀ instrument r, b.find? instrument = some r → r.serial < b.nextSerial) (s : Step)
    {instrument : String} {r : Registration} (h : (b.take s).find? instrument = some r) :
    r.serial < (b.take s).nextSerial := by
  rcases find?_take_cases h with ⟨r₀, hr₀, hchange⟩ | ⟨_, _, _, _, _, _, _, _, _, hlt, _⟩
  · rw [hchange.serial_eq]
    exact Nat.lt_of_lt_of_le (hb instrument r₀ hr₀) (nextSerial_le_take b s)
  · exact hlt

section Start

variable {config : Config} {instrument : String}

theorem serial_lt_of_find? (steps : List Step) {r : Registration}
    (h : ((start config).takeAll steps).find? instrument = some r) :
    r.serial < ((start config).takeAll steps).nextSerial := by
  induction steps using List.reverseRecOn generalizing instrument r with
  | nil => cases h
  | append_singleton steps s ih =>
      rw [takeAll_concat] at h ⊢
      exact serial_lt_take (fun _ _ => ih) s h

/-- A number that has not been given out has no past. -/
theorem fates_eq_nil_of_nextSerial_le (steps : List Step) {serial : Nat}
    (h : ((start config).takeAll steps).nextSerial ≤ serial) :
    (start config).fates instrument serial steps = [] := by
  induction steps using List.reverseRecOn with
  | nil => rfl
  | append_singleton steps s ih =>
      rw [takeAll_concat] at h
      have hle := Nat.le_trans (nextSerial_le_take _ s) h
      rw [fates_concat, ih hle, List.nil_append, Option.toList_eq_nil_iff, fate?]
      cases hr : ((start config).takeAll steps).find? instrument with
      | none => rfl
      | some r =>
          have hlt := serial_lt_of_find? steps hr
          rw [Option.bind_some, if_neg (by omega)]

/-- **What holds of a registration as it begins, and what every change keeps, holds after every
run,** of the registration and of what became of the messages for it. -/
theorem history_induction {P : List Fate → Registration → Prop}
    (begin : ∀ serial book now live, P [] (.start serial instrument book config.windowSize now live))
    (change : ∀ past r fate r', P past r → r.Change config instrument fate r' →
      P (past ++ fate.toList) r')
    {steps : List Step} {r : Registration}
    (h : ((start config).takeAll steps).find? instrument = some r) :
    P ((start config).fates instrument r.serial steps) r := by
  induction steps using List.reverseRecOn generalizing r with
  | nil => cases h
  | append_singleton steps s ih =>
      have hconfig : ((start config).takeAll steps).config = config := config_takeAll _ steps
      rw [takeAll_concat] at h
      rw [fates_concat]
      rcases find?_take_cases h with ⟨r₀, hr₀, hchange⟩ | ⟨_, _, _, _, _, _, _, _, hle, _, hstart⟩
      · rw [hconfig] at hchange
        rw [hchange.serial_eq, fate?_of_find? hr₀]
        exact change _ r₀ _ r (ih hr₀) hchange
      · -- the number is new, so it has no past, and the step itself is none of its own
        have hnone : ((start config).takeAll steps).fate? instrument r.serial s = none := by
          rw [fate?]
          cases hr₀ : ((start config).takeAll steps).find? instrument with
          | none => rfl
          | some r₀ =>
              have hlt := serial_lt_of_find? steps hr₀
              rw [Option.bind_some, if_neg (by omega)]
        rw [hnone, fates_eq_nil_of_nextSerial_le steps hle, hstart, hconfig]
        exact begin _ _ _ _

/-- **Registrations are proper after every run.** -/
theorem proper_of_find? {steps : List Step} {r : Registration}
    (h : ((start config).takeAll steps).find? instrument = some r) :
    r.Proper config instrument :=
  history_induction (P := fun _ r => r.Proper config instrument)
    (fun serial book now live => Registration.proper_start config instrument serial book now live)
    (fun _ _ _ _ hr hchange => hr.change hchange) h

end Start

end Board

end MarketDepth
