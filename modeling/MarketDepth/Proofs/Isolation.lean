/-
**Instruments do not get in each other's way.**

All instruments share the routers, the emitter, the registry and the channel of the resync
requests.  Still, what happens to one of them is a matter of its own messages, its own worker and
its own entries in the directory: leave all other steps out of a run, and it ends up with the same
registration and with the same requests.  Only the number of the registration may be another one,
since numbers are given out to all instruments in turn.

Main definitions:

* `MarketDepth.Catalog.about`, `MarketDepth.Board.stepsAbout` — **a catalog and a run as far as they
  concern an instrument**;
* `MarketDepth.Board.Alike` — the same registration but for its number, and the same requests.

Main results:

* `MarketDepth.Board.Alike.take` — a step and as much of it as concerns an instrument keep two
  boards alike;
* `MarketDepth.Tracker.alike_of_own_steps` — **the steps of others make no difference to an
  instrument.**
-/

import MarketDepth.Proofs.Local
import MarketDepth.Proofs.Moves

set_option relaxedAutoImplicit false
set_option autoImplicit false

namespace MarketDepth

open Board (Step)

/-! ### What concerns an instrument -/

/-- The entries that concern an instrument: the one under its name, and those that stand for it
under another name. -/
def Catalog.about (catalog : Catalog) (instrument : String) : Catalog where
  entries := catalog.entries.filter fun e => e.1 = instrument ∨ e.2.instrument = instrument
  sorted := catalog.sorted.filter _

namespace Board

/-- The step is about the instrument: its message or its worker belongs to it, or it goes through
all that is registered. -/
def Step.concerns (instrument : String) : Step → Bool
  | .routeDiff _ m | .routeSnapshot m | .emitTrade _ m => m.instrument = instrument
  | .work _ name | .loseWorker name => name = instrument
  | .converge .. | .killWorkers | .takeResyncs => true
  | .startTallies _ | .record _ | .takeLog => false

/-- **A step as far as it concerns an instrument.**  A cycle is cut down to the entries of the
instrument, and what it has noted to their names. -/
def Step.narrow (instrument : String) : Step → Step
  | .converge now live seen found =>
      .converge now live (seen.filter (found.about instrument).contains) (found.about instrument)
  | s => s

/-- **A run as far as it concerns an instrument.** -/
def stepsAbout (instrument : String) (steps : List Step) : List Step :=
  (steps.filter (·.concerns instrument)).map (·.narrow instrument)

end Board

/-! ### Registrations with other numbers -/

namespace Registration

/-- The registration with another number. -/
def renumber (r : Registration) (serial : Nat) : Registration :=
  { r with serial }

@[simp] theorem reconciler_renumber (r : Registration) (serial : Nat) :
    (r.renumber serial).reconciler = r.reconciler := rfl
@[simp] theorem inbox_renumber (r : Registration) (serial : Nat) :
    (r.renumber serial).inbox = r.inbox := rfl
@[simp] theorem tally_renumber (r : Registration) (serial : Nat) :
    (r.renumber serial).tally = r.tally := rfl

variable (config : Config) (r : Registration) (serial : Nat)

theorem answer_renumber (m : Message) (checkAge : Bool) :
    (r.renumber serial).answer config m checkAge = r.answer config m checkAge := rfl

theorem offered_renumber (m : Message) (checkAge : Bool) :
    (r.renumber serial).offered config m checkAge =
      (r.offered config m checkAge).renumber serial := by
  simp only [offered, answer_renumber]
  split <;> rfl

theorem handleDiff_renumber (statsInterval now : Nat) (d : Update) :
    ((r.renumber serial).handleDiff statsInterval now d).1 =
      (r.handleDiff statsInterval now d).1.renumber serial := by
  simp only [handleDiff, reconciler_renumber, tally_renumber]
  split
  · rfl
  · split <;> rfl

theorem after_renumber (statsInterval : Nat) (arrival : Nat × Message) :
    (r.renumber serial).after statsInterval arrival =
      (r.after statsInterval arrival).renumber serial := by
  obtain ⟨now, m⟩ := arrival
  cases m with
  | diff d => exact handleDiff_renumber r serial statsInterval now d
  | snapshot s => rfl
  | trade t => rfl

theorem worked_renumber (now : Nat) :
    (r.renumber serial).worked config now = (r.worked config now).renumber serial := by
  simp only [worked, inbox_renumber]
  split
  · rfl
  next m inbox _ => exact after_renumber { r with inbox } serial config.statsInterval (now, m)

/-- What a step makes of a registration does not depend on its number. -/
theorem take_renumber (instrument : String) (s : Step) :
    (r.renumber serial).take config instrument s = (r.take config instrument s).renumber serial := by
  unfold take
  split
  · split
    · exact offered_renumber config r serial _ true
    · rfl
  · split
    · exact offered_renumber config r serial _ false
    · rfl
  · split <;> rfl
  · split
    · exact worked_renumber config r serial _
    · rfl
  · split <;> rfl
  · rfl
  · rfl

end Registration

namespace Board

/-! ### Alike boards -/

/-- **Two boards that an instrument cannot tell apart:** with the same registration but for its
number, and with the same requests for it. -/
structure Alike (instrument : String) (b b' : Board) : Prop where
  config : b'.config = b.config
  registration : ∃ serial, b'.find? instrument = (b.find? instrument).map (·.renumber serial)
  requests : b'.resyncs.filter (· = instrument) = b.resyncs.filter (· = instrument)

variable {instrument : String} {b b' : Board}

theorem Alike.refl (instrument : String) (b : Board) : b.Alike instrument b where
  config := rfl
  registration := by
    cases h : b.find? instrument with
    | none => exact ⟨0, rfl⟩
    | some r => exact ⟨r.serial, rfl⟩
  requests := rfl

/-! ### Steps of others -/

/-- A step of others leaves a registration alone. -/
theorem take_of_not_concerns {s : Step} (h : s.concerns instrument = false) (config : Config)
    (r : Registration) : r.take config instrument s = r := by
  cases s with
  | emitTrade now m =>
      cases m with
      | trade t => exact if_neg (of_decide_eq_false h)
      | _ => rfl
  | _ => simp_all [Step.concerns, Registration.take]

theorem filter_published_of_not_concerns {s : Step} (h : s.concerns instrument = false)
    (b : Board) : (b.published s).filter (· = instrument) = [] := by
  refine List.filter_eq_nil_iff.2 ?_
  intro name hname
  cases s with
  | routeDiff now m =>
      simp only [published] at hname
      split at hname
      · rw [List.eq_of_mem_replicate hname]
        simpa [Step.concerns] using h
      · cases hname
  | routeSnapshot m =>
      simp only [published] at hname
      split at hname
      · rw [List.eq_of_mem_replicate hname]
        simpa [Step.concerns] using h
      · cases hname
  | _ => cases hname

/-- **A step of others makes no difference.** -/
theorem Alike.skip (h : b.Alike instrument b') {s : Step} (hs : s.concerns instrument = false) :
    (b.take s).Alike instrument b' := by
  have hcycle : ∀ now live seen found, s ≠ .converge now live seen found := by
    rintro now live seen found rfl
    cases hs
  have hread : s ≠ .takeResyncs := by
    rintro rfl
    cases hs
  constructor
  case config => rw [config_take, h.config]
  case registration =>
    obtain ⟨serial, hserial⟩ := h.registration
    refine ⟨serial, ?_⟩
    rw [find?_take hcycle, hserial, Option.map_map]
    refine Option.map_congr fun r _ => ?_
    rw [Function.comp_apply, take_of_not_concerns hs]
  case requests =>
    rw [h.requests, resyncs_take hread, List.filter_append,
      filter_published_of_not_concerns hs, List.append_nil]

/-! ### Steps of the instrument -/

theorem Alike.requestsOffered_eq (h : b.Alike instrument b') {m : Message}
    (hm : m.instrument = instrument) (checkAge : Bool) :
    b'.requestsOffered m checkAge = b.requestsOffered m checkAge := by
  subst hm
  obtain ⟨serial, hserial⟩ := h.registration
  unfold requestsOffered
  rw [hserial, h.config]
  cases b.find? m.instrument <;> rfl

theorem Alike.published_eq (h : b.Alike instrument b') {s : Step}
    (hs : s.concerns instrument = true) : b'.published s = b.published s := by
  cases s with
  | routeDiff now m =>
      simp only [published, h.requestsOffered_eq (by simpa [Step.concerns] using hs)]
  | routeSnapshot m =>
      simp only [published, h.requestsOffered_eq (by simpa [Step.concerns] using hs)]
  | _ => rfl

/-- A step of the instrument that is not a cycle does the same to both boards. -/
theorem Alike.take_same (h : b.Alike instrument b') {s : Step} (hs : s.concerns instrument = true)
    (hcycle : ∀ now live seen found, s ≠ .converge now live seen found) :
    (b.take s).Alike instrument (b'.take s) := by
  constructor
  case config => rw [config_take, config_take, h.config]
  case registration =>
    obtain ⟨serial, hserial⟩ := h.registration
    refine ⟨serial, ?_⟩
    rw [find?_take hcycle, find?_take hcycle, hserial, h.config, Option.map_map, Option.map_map]
    exact Option.map_congr fun r _ => Registration.take_renumber b.config r serial instrument s
  case requests =>
    by_cases hread : s = .takeResyncs
    · subst hread
      rfl
    · rw [resyncs_take hread, resyncs_take hread, List.filter_append, List.filter_append,
        h.requests, h.published_eq hs]

/-! ### Cycles -/

theorem entries_about (found : Catalog) (instrument : String) :
    (found.about instrument).entries =
      found.entries.filter fun e => e.1 = instrument ∨ e.2.instrument = instrument := rfl

theorem find?_about (found : Catalog) (instrument name : String) :
    (found.about instrument).find? name =
      (found.find? name).filter fun l => name = instrument ∨ l.instrument = instrument := by
  ext l
  rw [← NameTable.mem_entries_iff, Catalog.about, List.mem_filter, NameTable.mem_entries_iff,
    Option.filter_eq_some_iff]

@[simp] theorem contains_about (found : Catalog) (instrument : String) :
    (found.about instrument).contains instrument = found.contains instrument := by
  rw [NameTable.contains, find?_about, NameTable.contains]
  cases found.find? instrument <;> simp

/-- The new entries that stand for an instrument come in the order of their keys. -/
theorem filter_newListings (seen : List String) (found : Catalog) (instrument : String) :
    (newListings seen found).filter (·.instrument = instrument) =
      ((found.entries.filter fun e => !seen.contains e.1).map (·.2)).filter
        (·.instrument = instrument) := by
  let ls := (found.entries.filter fun e => !seen.contains e.1).map (·.2)
  let le := fun a b : Listing => decide (a.instrument ≤ b.instrument)
  -- among themselves they are in order already, and sorting is stable
  have hordered : (ls.filter (·.instrument = instrument)).Pairwise fun a b => le a b = true := by
    refine List.pairwise_of_forall_mem_list ?_
    intro a ha b hb
    have ha := of_decide_eq_true (List.mem_filter.1 ha).2
    have hb := of_decide_eq_true (List.mem_filter.1 hb).2
    exact decide_eq_true (by rw [ha, hb])
  have hsublist : (ls.filter (·.instrument = instrument)).Sublist (ls.mergeSort le) := by
    refine List.sublist_mergeSort ?_ ?_ hordered List.filter_sublist
    · intro a b c hab hbc
      exact decide_eq_true (le_trans (of_decide_eq_true hab) (of_decide_eq_true hbc))
    · intro a b
      simpa [le] using le_total a.instrument b.instrument
  have hfilter := hsublist.filter fun l => decide (l.instrument = instrument)
  rw [List.filter_filter] at hfilter
  simp only [Bool.and_self] at hfilter
  refine (hfilter.eq_of_length ?_).symm
  exact (((List.mergeSort_perm ls le).filter _).length_eq).symm

/-- Cut down to the entries of an instrument, a cycle registers the same for it. -/
theorem filter_newListings_about (seen : List String) (found : Catalog) (instrument : String) :
    (newListings (seen.filter (found.about instrument).contains) (found.about instrument)).filter
        (·.instrument = instrument) =
      (newListings seen found).filter (·.instrument = instrument) := by
  rw [filter_newListings, filter_newListings, List.filter_map, List.filter_map, List.filter_filter,
    List.filter_filter, entries_about, List.filter_filter]
  refine congrArg (List.map Prod.snd) (List.filter_congr ?_)
  rintro ⟨name, l⟩ hentry
  by_cases hl : l.instrument = instrument
  · -- an entry that stands for the instrument is one of its entries, so its name is not cut off
    have hname : (found.about instrument).contains name = true := by
      rw [NameTable.contains, find?_about, NameTable.mem_entries_iff.1 hentry]
      simp [hl]
    have hseen : (seen.filter (found.about instrument).contains).contains name =
        seen.contains name := by
      simp [List.contains_eq_mem, hname]
    simp only [Function.comp_apply, hseen, hl]
    simp
  · simp [hl]

/-- What registering a list of entries makes of a name is up to the last entry for it. -/
theorem find?_foldl_register (now : Nat) (live : Bool) (ls : List Listing) (b : Board)
    (name : String) :
    ∃ serial, (ls.foldl (·.register now live) b).find? name =
      match (ls.filter (·.instrument = name)).getLast? with
      | some l => some (.start serial name l.book b.config.windowSize now live)
      | none => b.find? name := by
  induction ls using List.reverseRecOn generalizing b with
  | nil => exact ⟨0, rfl⟩
  | append_singleton ls l ih =>
      obtain ⟨serial, ih⟩ := ih b
      rw [List.foldl_append, List.foldl_cons, List.foldl_nil, find?_register, List.filter_append]
      by_cases hname : name = l.instrument
      · refine ⟨(ls.foldl (·.register now live) b).nextSerial, ?_⟩
        simp [hname]
      · refine ⟨serial, ?_⟩
        simpa [hname, Ne.symm hname] using ih

/-- A cycle and as much of it as concerns an instrument do the same for it. -/
theorem Alike.converge (h : b.Alike instrument b') (now : Nat) (live : Bool) (seen : List String)
    (found : Catalog) :
    (b.take (.converge now live seen found)).Alike instrument
      (b'.take (Step.narrow instrument (.converge now live seen found))) := by
  constructor
  case config => simp only [Step.narrow, config_take, h.config]
  case requests => simp only [Step.narrow, take, resyncs_converge, h.requests]
  case registration =>
    simp only [Step.narrow, take, find?_converge, contains_about]
    split
    case isFalse => exact ⟨0, rfl⟩
    case isTrue =>
      obtain ⟨serial, hserial⟩ := h.registration
      obtain ⟨n, hn⟩ := find?_foldl_register now live (newListings seen found) b instrument
      obtain ⟨n', hn'⟩ := find?_foldl_register now live
        (newListings (seen.filter (found.about instrument).contains) (found.about instrument)) b'
        instrument
      rw [filter_newListings_about] at hn'
      rw [hn, hn', h.config]
      cases ((newListings seen found).filter (·.instrument = instrument)).getLast? with
      | none => exact ⟨serial, hserial⟩
      | some l => exact ⟨n', rfl⟩

/-! ### Runs -/

/-- **A run and as much of it as concerns an instrument keep two boards alike.** -/
theorem Alike.takeAll (h : b.Alike instrument b') (steps : List Step) :
    (b.takeAll steps).Alike instrument (b'.takeAll (stepsAbout instrument steps)) := by
  induction steps generalizing b b' with
  | nil => exact h
  | cons s steps ih =>
      rw [takeAll_cons]
      cases hs : s.concerns instrument with
      | false =>
          simp only [stepsAbout, List.filter_cons, hs, Bool.false_eq_true, if_false]
          exact ih (h.skip hs)
      | true =>
          simp only [stepsAbout, List.filter_cons, hs, if_true, List.map_cons, takeAll_cons]
          refine ih ?_
          cases s with
          | converge now live seen found => exact h.converge now live seen found
          | _ => exact h.take_same hs fun _ _ _ _ => Step.noConfusion

end Board

namespace Tracker

/-- **The steps of others make no difference to an instrument.**  From any board that a tracker has
come to, and after any steps, its registration is the same but for the number, and the same
requests for it have been published, as if only the steps had been taken whose message or worker
belongs to it, with each cycle cut down to its entries; and what waits in its queue is for it. -/
theorem alike_of_own_steps {config : Config} {directory : Directory} {t : Tracker}
    (h : new config directory = .ok t) (as : List Move) (instrument : String)
    (steps : List Board.Step) :
    let b := (t.moves as).board
    (b.takeAll steps).Alike instrument (b.takeAll (Board.stepsAbout instrument steps)) ∧
    ∀ r, (b.takeAll steps).find? instrument = some r →
      ∀ m ∈ r.inbox, m.instrument = instrument := by
  intro b
  refine ⟨(Board.Alike.refl instrument b).takeAll steps, ?_⟩
  intro r hr m hm
  have hboard : b = (Board.start config).takeAll (t.trace as) := board_moves_of_new h as
  rw [hboard, ← Board.takeAll_append] at hr
  exact ((Board.proper_of_find? hr).addressed m hm).1

/-- Of two diffs for B one is lost, and then B goes and C comes: of all this A notices only that a
cycle has run.  Its own diff waits as if nothing else had happened. -/
theorem alike_of_own_steps_past_a_full_queue :
    let config : Config := { windowSize := 2, queueCapacity := 1 }
    let listing (name : String) : Listing :=
      { instrument := name, timestamp := 0, book := .empty name }
    let diff (name : String) (id : UInt64) : Message :=
      .diff { instrument := name, updateId := id, timestamp := 0 }
    let directory : Directory := { catalog := .ofListings [listing "A", listing "B"] }
    let t : Tracker := { board := .start config, directory }
    let as : List Move := [.start 0, .perform 0 .refresher]
    let steps : List Board.Step := [.routeDiff 0 (diff "B" 1), .routeDiff 0 (diff "A" 1),
      .routeDiff 0 (diff "B" 2), .routeSnapshot (diff "A" 2), .work 0 "B",
      .converge 1 true ["A", "B"] (.ofListings [listing "A", listing "C"])]
    let b := (t.moves as).board
    new config directory = .ok t ∧
    (Board.stepsAbout "A" steps).length = 3 ∧
    (b.takeAll steps).resyncs = ["B"] ∧
    (b.takeAll (Board.stepsAbout "A" steps)).resyncs = [] ∧
    (b.takeAll steps).registry.names = ["A", "C"] ∧
    ((b.takeAll steps).find? "A").map (·.inbox) = some [diff "A" 1] ∧
    (b.takeAll steps).Alike "A" (b.takeAll (Board.stepsAbout "A" steps)) := by
  intro config listing diff directory t as steps b
  have hnew : new config directory = .ok t := rfl
  have hkept : (Board.stepsAbout "A" steps).length = 3 := by cbv
  refine ⟨hnew, hkept, ?_, ?_, ?_, ?_, (alike_of_own_steps hnew as "A" steps).1⟩
  all_goals
    unfold b t
    cbv

end Tracker

end MarketDepth
