/-
**Reports of what was counted.**

A task counts into its tally and asks it for a report now and then.  Each report hands out what was
counted since the one before it, so that the reports and what is still held divide the counts among
them: nothing is left out, and nothing is reported twice.  Reports come at least an interval apart.
A worker asks for a report after a diff that it has applied, but not after one that it has skipped;
since it has counted both by then, the next report has them all.

Main definitions:

* `MarketDepth.Tally.Call`, `MarketDepth.Tally.callAll`, `MarketDepth.Tally.reports` — what is done
  to a tally, and the reports that come of it;
* `MarketDepth.Tally.Reported` — **reports and tally tell what was counted**;
* `MarketDepth.Registration.calls`, `MarketDepth.Registration.reports` — what a worker does to its
  tally, and the reports that it logs.

Main results:

* `MarketDepth.Tally.call_cases` — what a single call does;
* `MarketDepth.Tally.reported_callAll` — whatever is counted is reported once;
* `MarketDepth.Registration.reports_eq` — a worker's reports are those of its tally;
* `MarketDepth.Tally.reports_lose_nothing` — **nothing is lost between reports,** of a task or of a
  worker.
-/

import MarketDepth.Proofs.Worker

set_option relaxedAutoImplicit false
set_option autoImplicit false

namespace MarketDepth

namespace Tally

/-! ### Counting and reporting -/

/-- What is done to a tally: something is counted, or a report is asked for. -/
inductive Call where
  | accept
  | reject
  | takeReport (now : Nat)
  deriving DecidableEq

/-- The time at which a report is asked for. -/
def Call.time? : Call → Option Nat
  | takeReport now => some now
  | _ => none

/-- A report and the time at which it is handed out. -/
structure Report where
  time : Nat
  accepted : Nat
  rejected : Nat
  deriving DecidableEq

/-- The tally after a call. -/
def call (interval : Nat) (tally : Tally) : Call → Tally
  | .accept => tally.accept
  | .reject => tally.reject
  | .takeReport now => (tally.takeReport interval now).2

/-- The report that a call brings. -/
def report? (interval : Nat) (tally : Tally) : Call → Option Report
  | .takeReport now => (tally.takeReport interval now).1.map fun (accepted, rejected) =>
      { time := now, accepted, rejected }
  | _ => none

/-- The tally after a run of calls. -/
def callAll (interval : Nat) (tally : Tally) (calls : List Call) : Tally :=
  calls.foldl (call interval) tally

/-- **The reports that a run of calls brings,** in order. -/
def reports (interval : Nat) (tally : Tally) : List Call → List Report
  | [] => []
  | c :: calls =>
      (tally.report? interval c).toList ++ (tally.call interval c).reports interval calls

variable {interval : Nat}

theorem callAll_append (tally : Tally) (calls calls' : List Call) :
    tally.callAll interval (calls ++ calls') =
      (tally.callAll interval calls).callAll interval calls' :=
  List.foldl_append

theorem callAll_concat (tally : Tally) (calls : List Call) (c : Call) :
    tally.callAll interval (calls ++ [c]) = (tally.callAll interval calls).call interval c :=
  callAll_append tally calls [c]

theorem reports_append (tally : Tally) (calls calls' : List Call) :
    tally.reports interval (calls ++ calls') =
      tally.reports interval calls ++ (tally.callAll interval calls).reports interval calls' := by
  induction calls generalizing tally with
  | nil => rfl
  | cons c calls ih =>
      rw [List.cons_append, reports, reports, ih, List.append_assoc]
      rfl

theorem reports_concat (tally : Tally) (calls : List Call) (c : Call) :
    tally.reports interval (calls ++ [c]) =
      tally.reports interval calls ++ ((tally.callAll interval calls).report? interval c).toList := by
  rw [reports_append, reports, reports, List.append_nil]

/-! ### What a call does -/

/-- **A call is counted, or it brings a report** of all that is held, after which the tally starts
over.  A report that is not due leaves the tally alone. -/
theorem call_cases (interval : Nat) (tally : Tally) (c : Call) :
    (tally.report? interval c = none ∧ (tally.call interval c).since = tally.since ∧
      (tally.call interval c).accepted = tally.accepted + [c].count .accept ∧
      (tally.call interval c).rejected = tally.rejected + [c].count .reject) ∨
    ∃ now, c = .takeReport now ∧ interval ≤ now - tally.since ∧
      tally.report? interval c =
        some { time := now, accepted := tally.accepted, rejected := tally.rejected } ∧
      tally.call interval c = start now := by
  cases c with
  | accept => exact .inl ⟨rfl, rfl, rfl, rfl⟩
  | reject => exact .inl ⟨rfl, rfl, rfl, rfl⟩
  | takeReport now =>
      simp only [report?, call, takeReport]
      split
      case isTrue => exact .inl ⟨rfl, rfl, rfl, rfl⟩
      case isFalse hdue => exact .inr ⟨now, rfl, Nat.not_lt.1 hdue, rfl, rfl⟩

/-- When the last of the reports was handed out, if there is one. -/
def lastTime (start : Nat) (reports : List Report) : Nat :=
  (reports.getLast?.map (·.time)).getD start

/-- A tally remembers when it was last reported. -/
theorem since_callAll (time : Nat) (calls : List Call) :
    ((start time).callAll interval calls).since =
      lastTime time ((start time).reports interval calls) := by
  induction calls using List.reverseRecOn with
  | nil => rfl
  | append_singleton calls c ih =>
      rw [callAll_concat, reports_concat]
      rcases call_cases interval ((start time).callAll interval calls) c with
        ⟨hnone, hsince, -, -⟩ | ⟨now, -, -, hsome, hcall⟩
      · rw [hsince, hnone, ih, Option.toList_none, List.append_nil]
      · rw [hcall, hsome, Option.toList_some, lastTime, List.getLast?_concat]
        rfl

/-- The last report was asked for at some time, if it was not the start. -/
theorem since_callAll_mem (time : Nat) (calls : List Call) :
    ((start time).callAll interval calls).since ∈ time :: calls.filterMap Call.time? := by
  induction calls using List.reverseRecOn with
  | nil => exact List.mem_cons_self
  | append_singleton calls c ih =>
      rw [callAll_concat, List.filterMap_append, ← List.cons_append]
      rcases call_cases interval ((start time).callAll interval calls) c with
        ⟨-, hsince, -, -⟩ | ⟨now, rfl, -, -, hcall⟩
      · rw [hsince]
        exact List.mem_append_left _ ih
      · rw [hcall]
        exact List.mem_append_right _ (List.mem_singleton_self now)

/-! ### Reports and counts -/

/-- The calls are made in the order of time, from a time on. -/
def InOrder (time : Nat) (calls : List Call) : Prop :=
  (time :: calls.filterMap Call.time?).Pairwise (· ≤ ·)

/-- In the order of time, no call comes before the last report. -/
theorem InOrder.since_le {time now : Nat} {calls after : List Call}
    (h : InOrder time (calls ++ .takeReport now :: after)) (interval : Nat) :
    ((start time).callAll interval calls).since ≤ now := by
  rw [InOrder, List.filterMap_append, ← List.cons_append] at h
  exact (List.pairwise_append.1 h).2.2 _ (since_callAll_mem time calls) now List.mem_cons_self

theorem InOrder.of_append {time : Nat} {calls calls' : List Call}
    (h : InOrder time (calls ++ calls')) : InOrder time calls := by
  rw [InOrder, List.filterMap_append, ← List.cons_append] at h
  exact (List.pairwise_append.1 h).1

/-- What a list of calls counts. -/
def counted (calls : List Call) : Nat × Nat :=
  (calls.count .accept, calls.count .reject)

/-- What a report counts. -/
def Report.counts (r : Report) : Nat × Nat :=
  (r.accepted, r.rejected)

/-- **Reports divide the calls among them:** each counts those since the one before it, and the
tally holds the rest. -/
theorem exists_parts (interval time : Nat) (calls : List Call) :
    ∃ parts rest, calls = List.flatten parts ++ rest ∧
      ((start time).reports interval calls).map Report.counts = parts.map counted ∧
      (((start time).callAll interval calls).accepted,
        ((start time).callAll interval calls).rejected) = counted rest := by
  induction calls using List.reverseRecOn with
  | nil => exact ⟨[], [], rfl, rfl, rfl⟩
  | append_singleton calls c ih =>
      obtain ⟨parts, rest, hcalls, hreports, hheld⟩ := ih
      obtain ⟨haccepted, hrejected⟩ := Prod.mk.inj hheld
      rw [callAll_concat, reports_concat, List.map_append, hreports]
      rcases call_cases interval ((start time).callAll interval calls) c with
        ⟨hnone, -, haccept, hreject⟩ | ⟨now, rfl, -, hsome, hcall⟩
      · refine ⟨parts, rest ++ [c], ?_, ?_, ?_⟩
        · rw [← List.append_assoc, ← hcalls]
        · rw [hnone, Option.toList_none, List.map_nil, List.append_nil]
        · rw [haccept, hreject, haccepted, hrejected, counted, List.count_append,
            List.count_append]
      · -- the report closes a part, and asking for it counts nothing
        refine ⟨parts ++ [rest ++ [.takeReport now]], [], ?_, ?_, ?_⟩
        · rw [List.flatten_append, List.flatten_singleton, List.append_nil, ← List.append_assoc,
            ← hcalls]
        · rw [hsome, Option.toList_some, List.map_append, List.map_singleton, List.map_singleton,
            Report.counts, haccepted, hrejected, counted, List.count_append, List.count_append]
          rfl
        · rw [hcall]
          rfl

/-- **Reports and tally tell what was counted** by calls from a time on. -/
structure Reported (interval time : Nat) (calls : List Call) (reports : List Report)
    (held : Tally) : Prop where
  /-- Every call belongs to the part of one report, or is not reported yet. -/
  divided : ∃ parts rest, calls = List.flatten parts ++ rest ∧
    reports.map Report.counts = parts.map counted ∧ (held.accepted, held.rejected) = counted rest
  accepted : (reports.map (·.accepted)).sum + held.accepted = calls.count .accept
  rejected : (reports.map (·.rejected)).sum + held.rejected = calls.count .reject
  /-- No number is larger than that of the calls. -/
  bounded : ∀ n, n = held.accepted ∨ n = held.rejected ∨
    (∃ r ∈ reports, n = r.accepted ∨ n = r.rejected) → n ≤ calls.length
  /-- Reports come an interval apart, and the first one comes an interval after the start. -/
  spaced : (time :: reports.map (·.time)).IsChain fun earlier later => earlier + interval ≤ later

/-- Whatever the calls are divided into, the parts sum up to all of them. -/
theorem sum_of_parts {parts : List (List Call)} {reports : List Report}
    (hreports : reports.map Report.counts = parts.map counted) (rest : List Call) :
    (reports.map (·.accepted)).sum + rest.count .accept =
        (parts.flatten ++ rest).count Call.accept ∧
      (reports.map (·.rejected)).sum + rest.count .reject =
        (parts.flatten ++ rest).count Call.reject := by
  have haccepted := congrArg (List.map Prod.fst) hreports
  have hrejected := congrArg (List.map Prod.snd) hreports
  simp only [List.map_map] at haccepted hrejected
  rw [List.count_append, List.count_append, List.count_flatten, List.count_flatten]
  constructor
  · exact congrArg (·.sum + rest.count .accept) haccepted
  · exact congrArg (·.sum + rest.count .reject) hrejected

theorem spaced_reports {time : Nat} {calls : List Call} (h : InOrder time calls) :
    (time :: ((start time).reports interval calls).map (·.time)).IsChain
      fun earlier later => earlier + interval ≤ later := by
  induction calls using List.reverseRecOn with
  | nil => exact .singleton time
  | append_singleton calls c ih =>
      have hchain := ih h.of_append
      rw [reports_concat]
      rcases call_cases interval ((start time).callAll interval calls) c with
        ⟨hnone, -, -, -⟩ | ⟨now, rfl, hdue, hsome, -⟩
      · rwa [hnone, Option.toList_none, List.append_nil]
      · have hle := h.since_le interval
        rw [hsome, Option.toList_some, List.map_append, List.map_singleton, ← List.cons_append]
        refine hchain.append (.singleton now) ?_
        intro last hlast next hnext
        obtain rfl : now = next := Option.mem_some_iff.1 hnext
        -- the last report is the one that the tally remembers
        have hsince : ((start time).callAll interval calls).since = last := by
          rw [List.getLast?_cons, Option.mem_some_iff, List.getLast?_map] at hlast
          rw [since_callAll, lastTime, hlast]
        omega

/-- **Whatever is counted is reported once.** -/
theorem reported_callAll {time : Nat} {calls : List Call} (h : InOrder time calls) :
    Reported interval time calls ((start time).reports interval calls)
      ((start time).callAll interval calls) := by
  obtain ⟨parts, rest, hcalls, hreports, hheld⟩ := exists_parts interval time calls
  obtain ⟨haccepted, hrejected⟩ := Prod.mk.inj hheld
  obtain ⟨haccept, hreject⟩ := sum_of_parts hreports rest
  rw [← hcalls, ← haccepted] at haccept
  rw [← hcalls, ← hrejected] at hreject
  have hlength : calls.count .accept ≤ calls.length ∧ calls.count .reject ≤ calls.length :=
    ⟨List.count_le_length, List.count_le_length⟩
  refine ⟨⟨parts, rest, hcalls, hreports, hheld⟩, haccept, hreject, ?_, spaced_reports h⟩
  rintro n (rfl | rfl | ⟨r, hr, rfl | rfl⟩)
  · omega
  · omega
  · have := List.le_sum_of_mem (List.mem_map_of_mem (f := (·.accepted)) hr)
    omega
  · have := List.le_sum_of_mem (List.mem_map_of_mem (f := (·.rejected)) hr)
    omega

/-- There is no report exactly while the interval since the last one lasts. -/
theorem takeReport_eq_none_iff_of_inOrder {time now : Nat} {before after : List Call}
    (h : InOrder time (before ++ .takeReport now :: after)) :
    (((start time).callAll interval before).takeReport interval now).1 = none ↔
      now < lastTime time ((start time).reports interval before) + interval := by
  have hle := h.since_le interval
  rw [takeReport_eq_none_iff, ← since_callAll]
  omega

end Tally

/-! ### Workers -/

namespace Reconciler

/-- The diff that handling a message skips, if it does. -/
def skippedBy? (r : Reconciler) : Message → Option Update
  | .diff d => if r.isStale d then some d else none
  | _ => none

/-- **The diffs that a run of messages skips,** in order. -/
def skipped (r : Reconciler) : List Message → List Update
  | [] => []
  | m :: ms => (r.skippedBy? m).toList ++ (r.handle m).skipped ms

/-- The diff in a message. -/
def diff? : Message → Option Update
  | .diff d => some d
  | _ => none

/-- Every diff is either applied or skipped. -/
theorem applied_append_skipped_perm (r : Reconciler) (ms : List Message) :
    (r.applied ms ++ r.skipped ms).Perm (ms.filterMap diff?) := by
  induction ms generalizing r with
  | nil => exact .nil
  | cons m ms ih =>
      rw [applied, skipped, List.filterMap_cons]
      have hrest := ih (r.handle m)
      cases m with
      | diff d =>
          cases hd : r.isStale d with
          | true =>
              rw [appliedBy?_diff_of_stale hd]
              simp only [skippedBy?, hd, if_true, Option.toList_none, Option.toList_some,
                List.nil_append, List.singleton_append, diff?]
              exact List.perm_middle.trans (hrest.cons d)
          | false =>
              rw [appliedBy?_diff_of_fresh hd]
              simp only [skippedBy?, hd, Bool.false_eq_true, if_false, Option.toList_none,
                Option.toList_some, List.nil_append, List.cons_append, diff?]
              exact hrest.cons d
      | snapshot s => exact hrest
      | trade t => exact hrest

end Reconciler

namespace Registration

open Tally (Call Report Reported)

/-- What the worker does to its tally as it handles a message: it counts a skipped diff, and after
an applied one it asks for a report as well. -/
def callsOf (r : Registration) (arrival : Nat × Message) : List Call :=
  match arrival.2 with
  | .diff d => if r.reconciler.isStale d then [.reject] else [.accept, .takeReport arrival.1]
  | _ => []

/-- **What a worker does to its tally** along a run. -/
def calls (r : Registration) (statsInterval : Nat) : List (Nat × Message) → List Call
  | [] => []
  | a :: arrivals => r.callsOf a ++ (r.after statsInterval a).calls statsInterval arrivals

/-- What the worker logs as it handles a message. -/
def logged (r : Registration) (statsInterval : Nat) (arrival : Nat × Message) : List Event :=
  match r.handle statsInterval arrival.1 arrival.2 with
  | .ok (_, events) => events
  | .error _ => []

/-- The report of the registration that is logged at a time. -/
def reportIn? (r : Registration) (now : Nat) : Event → Option Report
  | .workerReport instrument accepted rejected =>
      if instrument = r.instrument then some { time := now, accepted, rejected } else none
  | _ => none

/-- **The reports that a worker logs** along a run. -/
def reports (r : Registration) (statsInterval : Nat) : List (Nat × Message) → List Report
  | [] => []
  | a :: arrivals => (r.logged statsInterval a).filterMap (r.reportIn? a.1) ++
      (r.after statsInterval a).reports statsInterval arrivals

variable (statsInterval : Nat)

/-- For each message, the worker's reports and its tally are those of its calls. -/
theorem tally_after (r : Registration) (a : Nat × Message) :
    (r.after statsInterval a).tally = r.tally.callAll statsInterval (r.callsOf a) ∧
      (r.logged statsInterval a).filterMap (r.reportIn? a.1) =
        r.tally.reports statsInterval (r.callsOf a) := by
  obtain ⟨now, m⟩ := a
  cases m with
  | diff d =>
      simp only [after, logged, handle, handleDiff, callsOf]
      cases hd : r.reconciler.isStale d with
      | true =>
          simp only [Reconciler.applyDiff?, hd, if_true]
          exact ⟨rfl, rfl⟩
      | false =>
          simp only [Reconciler.applyDiff?, hd, Bool.false_eq_true, if_false]
          -- the counted diff comes first, then the report on it if that is due
          cases hreport : r.tally.accept.takeReport statsInterval now with
          | mk counts? tally =>
              cases counts? <;>
                simp [Tally.callAll, Tally.call, Tally.reports, Tally.report?, hreport, reportIn?]
  | snapshot s =>
      refine ⟨rfl, ?_⟩
      simp only [logged, handle, handleSnapshot]
      split <;> rfl
  | trade t => exact ⟨rfl, rfl⟩

/-- **A worker's reports are those of its tally.** -/
theorem reports_eq (r : Registration) (arrivals : List (Nat × Message)) :
    r.reports statsInterval arrivals =
        r.tally.reports statsInterval (r.calls statsInterval arrivals) ∧
      (r.run statsInterval arrivals).tally =
        r.tally.callAll statsInterval (r.calls statsInterval arrivals) := by
  induction arrivals generalizing r with
  | nil => exact ⟨rfl, rfl⟩
  | cons a arrivals ih =>
      obtain ⟨htally, hlogged⟩ := r.tally_after statsInterval a
      obtain ⟨hreports, hrun⟩ := ih (r.after statsInterval a)
      rw [calls, Tally.reports_append, Tally.callAll_append, ← htally, ← hlogged, ← hreports,
        ← hrun]
      exact ⟨rfl, rfl⟩

/-- A worker counts each diff that it applies, and each that it skips. -/
theorem count_calls (r : Registration) (arrivals : List (Nat × Message)) :
    (r.calls statsInterval arrivals).count .accept =
        (r.reconciler.applied (arrivals.map (·.2))).length ∧
      (r.calls statsInterval arrivals).count .reject =
        (r.reconciler.skipped (arrivals.map (·.2))).length := by
  induction arrivals generalizing r with
  | nil => exact ⟨rfl, rfl⟩
  | cons a arrivals ih =>
      have hrest := ih (r.after statsInterval a)
      rw [reconciler_after] at hrest
      rw [calls, List.map_cons, Reconciler.applied, Reconciler.skipped, List.count_append,
        List.count_append, List.length_append, List.length_append, hrest.1, hrest.2]
      obtain ⟨now, m⟩ := a
      cases m with
      | diff d =>
          cases hd : r.reconciler.isStale d with
          | true =>
              rw [Reconciler.appliedBy?_diff_of_stale hd]
              simp [callsOf, Reconciler.skippedBy?, hd]
          | false =>
              rw [Reconciler.appliedBy?_diff_of_fresh hd]
              simp [callsOf, Reconciler.skippedBy?, hd]
      | snapshot s => exact ⟨rfl, rfl⟩
      | trade t => exact ⟨rfl, rfl⟩

/-- A worker asks for reports as its messages come up. -/
theorem times_calls_sublist (r : Registration) (arrivals : List (Nat × Message)) :
    ((r.calls statsInterval arrivals).filterMap Call.time?).Sublist (arrivals.map (·.1)) := by
  induction arrivals generalizing r with
  | nil => exact .refl _
  | cons a arrivals ih =>
      have hfirst : ((r.callsOf a).filterMap Call.time?).Sublist [a.1] := by
        unfold callsOf
        split
        · split
          · exact List.nil_sublist _
          · exact .refl _
        · exact List.nil_sublist _
      rw [calls, List.filterMap_append, List.map_cons, ← List.singleton_append]
      exact hfirst.append (ih (r.after statsInterval a))

end Registration

/-- **Nothing is lost between reports.**  A tally that is started at a time and used in the order of
time hands out every count in one report, or still holds it; its reports are an interval apart, and
it refuses one exactly while the interval lasts.  So while the calls are fewer than a 64-bit counter
can count, no counter overflows.  A worker that handles its messages in the order of time counts
every diff, applied or skipped, and its reports in the log are those of its tally. -/
theorem Tally.reports_lose_nothing (interval time : Nat) :
    (∀ calls, InOrder time calls →
      Reported interval time calls ((start time).reports interval calls)
        ((start time).callAll interval calls) ∧
      ∀ before now after, calls = before ++ .takeReport now :: after →
        ((((start time).callAll interval before).takeReport interval now).1 = none ↔
          now < lastTime time ((start time).reports interval before) + interval)) ∧
    ∀ (w : Registration) (arrivals : List (Nat × Message)), w.tally = start time →
      (time :: arrivals.map (·.1)).Pairwise (· ≤ ·) →
        Reported interval time (w.calls interval arrivals) (w.reports interval arrivals)
          (w.run interval arrivals).tally ∧
        (w.calls interval arrivals).count .accept =
          (w.reconciler.applied (arrivals.map (·.2))).length ∧
        (w.calls interval arrivals).count .reject =
          (w.reconciler.skipped (arrivals.map (·.2))).length ∧
        (w.reconciler.applied (arrivals.map (·.2)) ++
          w.reconciler.skipped (arrivals.map (·.2))).Perm
            ((arrivals.map (·.2)).filterMap Reconciler.diff?) := by
  constructor
  · intro calls horder
    refine ⟨reported_callAll horder, ?_⟩
    rintro before now after rfl
    exact takeReport_eq_none_iff_of_inOrder horder
  · intro w arrivals hstart horder
    obtain ⟨hreports, hrun⟩ := w.reports_eq interval arrivals
    obtain ⟨haccept, hreject⟩ := w.count_calls interval arrivals
    have hcalls : InOrder time (w.calls interval arrivals) :=
      horder.sublist ((w.times_calls_sublist interval arrivals).cons_cons time)
    rw [hreports, hrun, hstart]
    exact ⟨reported_callAll hcalls, haccept, hreject,
      w.reconciler.applied_append_skipped_perm _⟩

/-- Reports every ten milliseconds: one comes at its first instant, one is refused just before the
next, and a worker that skips two diffs after its first report has them in its second one. -/
theorem Tally.reports_lose_nothing_of_late_skips :
    let calls : List Call := [.accept, .takeReport 10, .reject, .takeReport 19, .accept,
      .takeReport 25, .reject]
    let diff (id : UInt64) : Message := .diff { instrument := "A", updateId := id, timestamp := 0 }
    let w : Registration := .start 0 "A" (.empty "A") 2 0 true
    let arrivals : List (Nat × Message) :=
      [(10, diff 5), (11, diff 4), (30, diff 5), (30, diff 6), (31, diff 2)]
    InOrder 0 calls ∧ (start 0).reports 10 calls = [⟨10, 1, 0⟩, ⟨25, 1, 1⟩] ∧
    Reported 10 0 calls [⟨10, 1, 0⟩, ⟨25, 1, 1⟩] ((start 0).callAll 10 calls) ∧
    (w.tally = start 0 ∧ (0 :: arrivals.map (·.1)).Pairwise (· ≤ ·)) ∧
    w.reports 10 arrivals = [⟨10, 1, 0⟩, ⟨30, 1, 2⟩] ∧
    Reported 10 0 (w.calls 10 arrivals) [⟨10, 1, 0⟩, ⟨30, 1, 2⟩] (w.run 10 arrivals).tally := by
  intro calls diff w arrivals
  have horder : InOrder 0 calls := by unfold InOrder; decide
  have hreports : (start 0).reports 10 calls = [⟨10, 1, 0⟩, ⟨25, 1, 1⟩] := by decide
  have hstart : w.tally = start 0 := rfl
  have htimes : (0 :: arrivals.map (·.1)).Pairwise (· ≤ ·) := by decide
  have hlogged : w.reports 10 arrivals = [⟨10, 1, 0⟩, ⟨30, 1, 2⟩] := by cbv
  obtain ⟨hcalls, hworkers⟩ := reports_lose_nothing 10 0
  have hreported := (hcalls calls horder).1
  have hworker := (hworkers w arrivals hstart htimes).1
  rw [hreports] at hreported
  rw [hlogged] at hworker
  exact ⟨horder, hreports, hreported, ⟨hstart, htimes⟩, hlogged, hworker⟩

end MarketDepth
