/-
**Refresh cycles, one after the other.**

Between the beginning of a cycle, when it notes what is live, and its end, when it converges the
board, other tasks go on and other cycles are asked for.  But the cycle keeps its turn all the
while, so none of these cycles begins or ends in between.  What it does to the board, it does in one
piece at its end, and unless a noted worker has terminated, it is what a cycle would do that noted
and applied everything at this moment.  A live worker has nothing to fear from it, as long as no
entry of its instrument is listed under another key: for such an entry the instrument is registered
anew, whoever is working for it.

Main definitions:

* `MarketDepth.Catalog.Aliased` — listed under a key that is not one's own;
* `MarketDepth.Tracker.OnSince` — a cycle that is on, since when, and what has happened meanwhile;
* `MarketDepth.Board.serially` — **a run in which every cycle is done in one piece**;
* `MarketDepth.Tracker.outcomes` — what the cycles of a list of moves come to.

Main results:

* `MarketDepth.Tracker.onSince_of_noted` — a cycle that has noted something is on since then;
* `MarketDepth.Tracker.serially_trace` — **overlapping cycles do what serial ones do**;
* `MarketDepth.Tracker.unbroken_of_no_loss` — what a cycle has noted stays live, unless a worker is
  lost;
* `MarketDepth.Tracker.cycles_one_after_another` — **a cycle is not disturbed by others, and does
  not disturb what is live.**
-/

import MarketDepth.Proofs.Cycles
import MarketDepth.Proofs.Local
import MarketDepth.Proofs.Stopping

set_option relaxedAutoImplicit false
set_option autoImplicit false

namespace MarketDepth

/-! ### Foreign keys -/

namespace Catalog

/-- The instrument is listed under a key that is not its own. -/
def Aliased (catalog : Catalog) (instrument : String) : Prop :=
  ∃ key l, catalog.find? key = some l ∧ l.instrument = instrument ∧ key ≠ instrument

theorem Faithful.not_aliased {catalog : Catalog} (h : catalog.Faithful) (instrument : String) :
    ¬ catalog.Aliased instrument := by
  rintro ⟨key, l, hl, rfl, hne⟩
  exact hne (h key l hl).symm

end Catalog

/-! ### Cycles in one piece -/

namespace Board

/-- **A run in which every cycle is done in one piece:** it takes what is live now for what was
noted.  The outcomes of the cycles are listed in their order. -/
def serially (b : Board) : List Step → Board × List RefreshOutcome
  | [] => (b, [])
  | .converge now live _ found :: steps =>
      let cycle := b.converge now live b.trackedNames found
      let rest := cycle.2.serially steps
      (rest.1, cycle.1 :: rest.2)
  | s :: steps => (b.take s).serially steps

theorem serially_append (b : Board) (steps steps' : List Step) :
    b.serially (steps ++ steps') =
      (((b.serially steps).1.serially steps').1,
        (b.serially steps).2 ++ ((b.serially steps).1.serially steps').2) := by
  induction steps generalizing b with
  | nil => rfl
  | cons s steps ih =>
      cases s with
      | converge now live seen found =>
          simp only [List.cons_append, serially, ih]
      | _ => exact ih _

/-- Steps of other tasks are done as they are. -/
theorem serially_of_startsNone {b : Board} {steps : List Step}
    (h : ∀ s ∈ steps, s.StartsNone) : b.serially steps = (b.takeAll steps, []) := by
  induction steps generalizing b with
  | nil => rfl
  | cons s steps ih =>
      have hrest := ih (b := b.take s) fun s' hs' => h s' (List.mem_cons_of_mem s hs')
      cases s with
      | converge now live seen found =>
          exact absurd rfl (h _ List.mem_cons_self now live seen found)
      | _ => exact hrest

/-- What is live is listed in ascending order. -/
theorem pairwise_trackedNames (b : Board) : b.trackedNames.Pairwise (· < ·) :=
  b.registry.pairwise_names.sublist (List.filter_sublist.map _)

/-- Other steps than those of cycles neither register nor retire. -/
theorem serial_of_startsNone {b : Board} {steps : List Step} (h : ∀ s ∈ steps, s.StartsNone)
    (name : String) :
    ((b.takeAll steps).find? name).map (·.serial) = (b.find? name).map (·.serial) := by
  induction steps generalizing b with
  | nil => rfl
  | cons s steps ih =>
      rw [takeAll_cons, ih fun s' hs' => h s' (List.mem_cons_of_mem s hs'),
        find?_take (h s List.mem_cons_self), Option.map_map]
      exact congrArg (Option.map · _) (funext fun r => Registration.serial_take _ _ r s)

/-- **A cycle leaves alone what is live,** but for what is not listed: it registers nothing that it
has noted, unless this is listed under another key. -/
theorem live_converge {b : Board} {seen : List String} {found : Catalog} (now : Nat) (live : Bool)
    {name : String} {r : Registration} (hr : b.find? name = some r) (hseen : name ∈ seen)
    (unaliased : ¬ found.Aliased name) :
    (if found.contains name = true then (b.converge now live seen found).2.find? name = some r
      else (b.converge now live seen found).2.find? name = none) ∧
    name ∉ (b.converge now live seen found).1.added := by
  have hnew : name ∉ (newListings seen found).map (·.instrument) := by
    intro hmem
    obtain ⟨l, hl, hname⟩ := List.mem_map.1 hmem
    obtain ⟨key, hkey, hunseen⟩ := mem_newListings_iff.1 hl
    refine unaliased ⟨key, l, hkey, hname, ?_⟩
    rintro rfl
    exact hunseen hseen
  refine ⟨?_, by rwa [added_converge]⟩
  rw [find?_converge, find?_foldl_register_of_not_mem hnew, hr]
  split <;> simp_all

/-- The step ends no worker. -/
def Step.Spares (s : Step) : Prop :=
  s ≠ .killWorkers ∧ ∀ name, s ≠ .loseWorker name

/-- What is live stays live in steps of other tasks that end no worker. -/
theorem mem_trackedNames_takeAll {b : Board} {steps : List Step} (h : ∀ s ∈ steps, s.StartsNone)
    (spares : ∀ s ∈ steps, s.Spares) {name : String} (hname : name ∈ b.trackedNames) :
    name ∈ (b.takeAll steps).trackedNames := by
  induction steps generalizing b with
  | nil => exact hname
  | cons s steps ih =>
      obtain ⟨r, hr, hlive⟩ := mem_trackedNames_iff.1 hname
      obtain ⟨hkill, hlose⟩ := spares s List.mem_cons_self
      refine ih (fun s' hs' => h s' (List.mem_cons_of_mem s hs'))
        (fun s' hs' => spares s' (List.mem_cons_of_mem s hs')) ?_
      refine mem_trackedNames_iff.2 ⟨r.take b.config name s, ?_, ?_⟩
      · rw [find?_take (h s List.mem_cons_self), hr, Option.map_some]
      · rw [Registration.live_take (hlose name) hkill, hlive]

end Board

namespace Tracker

/-! ### Cycles that are on -/

/-- **A cycle of `owner` is on since the moves `first`,** and `since` are the moves from then on,
the first of which began it. -/
structure OnSince (t : Tracker) (first since : List Move) (owner : Requester) : Prop where
  /-- It has its turn all the time, with what was live when it began. -/
  held : ∀ before after, since = before ++ after → before ≠ [] →
    (t.moves (first ++ before)).turns.current? =
      some { owner, seen? := some (t.moves first).board.trackedNames }
  /-- No cycle ends meanwhile. -/
  alone : ∀ before a after, since = before ++ a :: after →
    (t.moves (first ++ before)).answer? a = none

/-- No time has passed yet. -/
theorem onSince_nil (t : Tracker) (first : List Move) (owner : Requester) :
    t.OnSince first [] owner where
  held := by
    rintro before after h hne
    exact absurd (List.append_eq_nil_iff.1 h.symm).1 hne
  alone := by
    rintro before a after h
    exact absurd h.symm (List.append_ne_nil_of_right_ne_nil before (List.cons_ne_nil a after))

theorem OnSince.concat {t : Tracker} {first since : List Move} {owner : Requester} {a : Move}
    (h : t.OnSince first since owner) (hanswer : (t.moves (first ++ since)).answer? a = none)
    (hturn : (t.moves (first ++ (since ++ [a]))).turns.current? =
      some { owner, seen? := some (t.moves first).board.trackedNames }) :
    t.OnSince first (since ++ [a]) owner where
  held := by
    intro before after hsplit hne
    rcases List.eq_nil_or_concat after with rfl | ⟨after, a', rfl⟩
    · rw [List.append_nil] at hsplit
      rw [← hsplit]
      exact hturn
    · rw [List.concat_eq_append, ← List.append_assoc] at hsplit
      exact h.held before after (List.append_inj_left' hsplit rfl) hne
  alone := by
    intro before a' after hsplit
    rcases List.eq_nil_or_concat after with rfl | ⟨after, a'', rfl⟩
    · obtain ⟨rfl, hlast⟩ := List.append_inj' hsplit rfl
      obtain rfl := List.head_eq_of_cons_eq hlast
      exact hanswer
    · rw [List.concat_eq_append, ← List.cons_append, ← List.append_assoc] at hsplit
      exact h.alone before a' after (List.append_inj_left' hsplit rfl)

/-- **A cycle that has noted something is on since then.** -/
theorem onSince_of_noted {config : Config} {directory : Directory} {t : Tracker}
    (h : new config directory = .ok t) {as : List Move} {owner : Requester} {seen : List String}
    (hturn : (t.moves as).turns.current? = some { owner, seen? := some seen }) :
    ∃ first since, as = first ++ since ∧ seen = (t.moves first).board.trackedNames ∧
      t.OnSince first since owner := by
  induction as using List.reverseRecOn generalizing seen with
  | nil =>
      rw [moves_nil, eq_of_new h] at hturn
      cases hturn
  | append_singleton as a ih =>
      rw [moves_concat] at hturn
      obtain ⟨hanswer, hold | ⟨rfl, -⟩⟩ := noted_move hturn
      · obtain ⟨first, since, rfl, rfl, hon⟩ := ih hold
        refine ⟨first, since ++ [a], List.append_assoc _ _ _, rfl, hon.concat hanswer ?_⟩
        rw [← List.append_assoc, moves_concat]
        exact hturn
      · refine ⟨as, [a], rfl, rfl, (onSince_nil t as owner).concat ?_ ?_⟩
        · rwa [List.append_nil]
        · rw [List.nil_append, moves_concat]
          exact hturn

/-- What a cycle has noted, and has not lost, is what is live. -/
theorem eq_trackedNames_of_hasNoted {config : Config} {directory : Directory} {t : Tracker}
    (h : new config directory = .ok t) {as : List Move} {seen : List String}
    (hnoted : (t.moves as).HasNoted seen)
    (kept : ∀ name ∈ seen, name ∈ (t.moves as).board.trackedNames) :
    seen = (t.moves as).board.trackedNames := by
  rcases hnoted with ⟨owner, hturn⟩ | hseen
  · obtain ⟨first, since, -, hseen, -⟩ := onSince_of_noted h hturn
    have hsorted : seen.Pairwise (· < ·) := by
      rw [hseen]
      exact Board.pairwise_trackedNames _
    refine hsorted.eq_of_mem_iff (Board.pairwise_trackedNames _) fun name => ⟨kept name, ?_⟩
    exact notes_moves h as owner seen hturn name
  · exact hseen

end Tracker

/-! ### Outcomes -/

/-- The outcome, if the cycle has come to one. -/
def RefreshAnswer.outcome? : RefreshAnswer → Option RefreshOutcome
  | done outcome => some outcome
  | _ => none

namespace Tracker

/-- The outcome of the cycle that a move ends. -/
def outcome? (t : Tracker) (a : Move) : Option RefreshOutcome :=
  (t.answer? a).bind RefreshAnswer.outcome?

/-- **What the cycles of a list of moves come to,** in the order in which they end. -/
def outcomes (t : Tracker) : List Move → List RefreshOutcome
  | [] => []
  | a :: as => (t.outcome? a).toList ++ (t.move a).outcomes as

theorem outcomes_concat (t : Tracker) (as : List Move) (a : Move) :
    t.outcomes (as ++ [a]) = t.outcomes as ++ ((t.moves as).outcome? a).toList := by
  induction as generalizing t with
  | nil =>
      rw [List.nil_append, outcomes, outcomes, outcomes, List.append_nil]
      rfl
  | cons a' as ih =>
      rw [List.cons_append, outcomes, outcomes, ih, List.append_assoc]
      rfl

/-- No worker that a cycle has noted terminates while the cycle is on. -/
def Unbroken (t : Tracker) (as : List Move) : Prop :=
  ∀ earlier later, as = earlier ++ later → ∀ owner seen,
    (t.moves earlier).turns.current? = some { owner, seen? := some seen } →
    ∀ name ∈ seen, name ∈ (t.moves earlier).board.trackedNames

theorem spares_of_mem_stepsOfTask {t : Tracker} {now : Nat} {task : Task} {s : Board.Step}
    (h : s ∈ t.stepsOfTask now task) : s.Spares := by
  unfold Board.Step.Spares
  cases task with
  | refresher =>
      rcases hcurrent : t.turns.current? with _ | ⟨_ | caller, _ | seen⟩ <;>
        grind [stepsOfTask, finishSteps, beginSteps, Task.faultSteps]
  | _ => grind [stepsOfTask, Task.faultSteps]

/-- No move ends a worker but a stop, a drop and the loss of a worker. -/
theorem spares_of_mem_stepsOf {t : Tracker} {a : Move} {s : Board.Step} (h : s ∈ t.stepsOf a)
    (hstop : a = .stop → t.isServing = false) (hdrop : a ≠ .drop)
    (hlose : ∀ name, a ≠ .loseWorker name) : s.Spares := by
  cases a with
  | perform now task =>
      simp only [stepsOf] at h
      split at h
      · exact spares_of_mem_stepsOfTask h
      · cases h
  | stop =>
      have hrefused := hstop rfl
      unfold isServing at hrefused
      simp only [stepsOf] at h
      split at h <;> simp_all
  | drop => exact absurd rfl hdrop
  | loseWorker name => exact absurd rfl (hlose name)
  | _ =>
      unfold Board.Step.Spares
      grind [stepsOf, concludeSteps]

/-- **Only the loss of a worker can come in between:** with a stop or a drop the cycles end too. -/
theorem unbroken_of_no_loss {config : Config} {directory : Directory} {t : Tracker}
    (h : new config directory = .ok t) {as : List Move}
    (spared : ∀ name, .loseWorker name ∉ as) : t.Unbroken as := by
  intro earlier later hsplit owner seen hturn
  induction earlier using List.reverseRecOn generalizing later seen with
  | nil =>
      rw [moves_nil, eq_of_new h] at hturn
      cases hturn
  | append_singleton earlier a ih =>
      rw [List.append_assoc] at hsplit
      rw [moves_concat] at hturn ⊢
      rw [board_move]
      obtain ⟨hanswer, hold | ⟨rfl, hsteps⟩⟩ := noted_move hturn
      · intro name hname
        refine Board.mem_trackedNames_takeAll
          (fun s hs => startsNone_of_answer?_eq_none hanswer hs) (fun s hs => ?_)
          (ih _ hsplit seen hold name hname)
        refine spares_of_mem_stepsOf hs ?_ ?_ ?_
        · rintro rfl
          by_contra hserving
          rw [Bool.not_eq_false] at hserving
          rw [move, (atRest_stop hserving).turns] at hturn
          cases hturn
        · rintro rfl
          cases hturn
        · rintro name rfl
          refine spared name ?_
          rw [hsplit]
          exact List.mem_append_right _ List.mem_cons_self
      · rw [hsteps]
        exact fun name hname => hname

/-- The steps of a move, with a cycle in one piece, if what was noted is what is live. -/
theorem serially_stepsOf {t : Tracker}
    (whole : ∀ seen, t.HasNoted seen → seen = t.board.trackedNames) (a : Move) :
    t.board.serially (t.stepsOf a) = ((t.move a).board, (t.outcome? a).toList) := by
  rw [board_move, outcome?]
  rcases ends_or_startsNone t a with ⟨hanswer, hsteps⟩ |
    ⟨answer, now, live, seen, hanswer, hnoted, hends⟩
  · rw [Board.serially_of_startsNone hsteps, hanswer]
    rfl
  · rw [hanswer]
    cases hends with
    | done looked steps =>
        rw [steps, whole seen hnoted]
        rfl
    | failed looked steps =>
        refine Board.serially_of_startsNone fun s hs => ?_
        obtain ⟨events, rfl⟩ := steps s hs
        exact fun _ _ _ _ h => by cases h

/-- **Overlapping cycles do what serial ones do:** the board, and the outcomes in their order, are
those of the run in which every cycle notes and applies everything in one piece. -/
theorem serially_trace {config : Config} {directory : Directory} {t : Tracker}
    (h : new config directory = .ok t) {as : List Move} (unbroken : t.Unbroken as) :
    t.board.serially (t.trace as) = ((t.moves as).board, t.outcomes as) := by
  induction as using List.reverseRecOn with
  | nil => rfl
  | append_singleton as a ih =>
      have hbefore := ih fun earlier later hsplit =>
        unbroken earlier (later ++ [a]) (by rw [hsplit, List.append_assoc])
      have hmove := serially_stepsOf (t := t.moves as) (a := a) fun seen hnoted => by
        refine eq_trackedNames_of_hasNoted h hnoted ?_
        rcases hnoted with ⟨owner, hturn⟩ | hseen
        · exact unbroken as [a] rfl owner seen hturn
        · rw [hseen]
          exact fun _ hname => hname
      rw [trace_concat, Board.serially_append, hbefore, outcomes_concat, moves_concat]
      dsimp only
      rw [hmove]

/-! ### One after another -/

/-- A move that ends a cycle leaves alone what was live. -/
theorem Ends.live_cases {t : Tracker} (ht : t.Notes) {a : Move} {now : Nat} {live : Bool}
    {seen : List String} {answer : RefreshAnswer} (hnoted : t.HasNoted seen)
    (h : t.Ends a now live seen answer) :
    (∃ fault log, answer = .failed fault ∧ t.directory.lookup.1 = .error fault ∧
      (t.move a).board = { t.board with log }) ∨
    ∃ outcome, answer = .done outcome ∧ t.directory.lookup.1 = .ok t.directory.contents ∧
      t.board.converge now live seen t.directory.contents = (outcome, (t.move a).board) ∧
      (∀ name r, t.board.find? name = some r → r.live = true →
        ¬ t.directory.contents.Aliased name →
        (if t.directory.contents.contains name = true then (t.move a).board.find? name = some r
          else (t.move a).board.find? name = none) ∧
        name ∉ outcome.added) := by
  rcases h.board_cases with hfailed | ⟨outcome, hanswer, looked, hconverge⟩
  · exact .inl hfailed
  · refine .inr ⟨outcome, hanswer, looked, hconverge, fun name r hr hlive unaliased => ?_⟩
    have htracked := Board.mem_trackedNames_iff.2 ⟨r, hr, hlive⟩
    have hseen : name ∈ seen := by
      rcases hnoted with ⟨owner, hturn⟩ | hnow
      · exact ht owner seen hturn name htracked
      · rwa [hnow]
    have hleft := Board.live_converge now live hr hseen unaliased
    rwa [hconverge] at hleft

/-- **Refresh cycles come one after another,** however they overlap.  As long as no worker
terminates during a cycle that has noted it, and so whenever no worker is lost, board and outcomes
are those of the run with every cycle in one piece.  In any case: a move that ends no cycle neither
registers nor retires.  A cycle that ends has kept its turn since it began, no other cycle has ended
meanwhile, and what it does in one piece it does with what was live as it began, and with what the
directory has now.  Unless its instrument is listed under another key, a live registration stays
just as it is if it is listed, goes if it is not, and is not told to have been added. -/
theorem cycles_one_after_another {config : Config} {directory : Directory} {t : Tracker}
    (h : new config directory = .ok t) :
    (∀ as, (∀ name, .loseWorker name ∉ as) → t.Unbroken as) ∧
    (∀ as, t.Unbroken as → t.board.serially (t.trace as) = ((t.moves as).board, t.outcomes as)) ∧
    ∀ (earlier : List Move) (a : Move),
      let u := t.moves earlier
      (u.answer? a = none → ∀ name,
        ((u.move a).board.find? name).map (·.serial) = (u.board.find? name).map (·.serial)) ∧
      ∀ answer, u.answer? a = some answer →
        ∃ first since owner now live, earlier = first ++ since ∧ t.OnSince first since owner ∧
          let seen := (t.moves first).board.trackedNames
          (∃ fault log, answer = .failed fault ∧ u.directory.lookup.1 = .error fault ∧
            (u.move a).board = { u.board with log }) ∨
          ∃ outcome, answer = .done outcome ∧
            u.directory.lookup.1 = .ok u.directory.contents ∧
            u.board.converge now live seen u.directory.contents = (outcome, (u.move a).board) ∧
            (∀ name r, u.board.find? name = some r → r.live = true →
              ¬ u.directory.contents.Aliased name →
              (if u.directory.contents.contains name = true then
                (u.move a).board.find? name = some r
              else (u.move a).board.find? name = none) ∧
              name ∉ outcome.added) := by
  refine ⟨fun as spared => unbroken_of_no_loss h spared,
    fun as unbroken => serially_trace h unbroken, ?_⟩
  intro earlier a u
  rcases ends_or_startsNone u a with ⟨hnone, hsteps⟩ |
    ⟨answer, now, live, seen, hanswer, hnoted, hends⟩
  · refine ⟨fun _ name => ?_, fun answer hanswer => ?_⟩
    · rw [board_move]
      exact Board.serial_of_startsNone hsteps name
    · rw [hnone] at hanswer
      cases hanswer
  · refine ⟨fun hnone => ?_, fun answer' hanswer' => ?_⟩
    · rw [hnone] at hanswer
      cases hanswer
    · obtain rfl := Option.some.inj (hanswer.symm.trans hanswer')
      have hcases := hends.live_cases (notes_moves h earlier) hnoted
      rcases hnoted with ⟨owner, hturn⟩ | hseen
      · obtain ⟨first, since, hsplit, rfl, hon⟩ := onSince_of_noted h hturn
        exact ⟨first, since, owner, now, live, hsplit, hon, hcases⟩
      · -- a cycle that is done at once
        rw [hseen] at hcases
        exact ⟨earlier, [], .periodic, now, live, (List.append_nil _).symm, onSince_nil t earlier _,
          hcases⟩

/-- The periodic cycle waits for the directory, and two callers wait for it.  Then the directory has
B as well; later it has C in its place, while a diff for A is handled; then it fails. -/
theorem cycles_one_after_another_when_they_overlap :
    let config : Config := { windowSize := 2, queueCapacity := 2 }
    let listing (name : String) : Listing :=
      { instrument := name, timestamp := 0, book := .empty name }
    let directory : Directory := { catalog := .ofListings [listing "A"], delay := 5 }
    let t : Tracker := { board := .start config, directory }
    let diff : Message := .diff { instrument := "A", updateId := 5, timestamp := 0 }
    let asking : List Move := [.start 0, .perform 0 .refresher, .ask 0, .ask 1,
      .changeDirectory { catalog := .ofListings [listing "A", listing "B"] }]
    let second : List Move := asking ++ [.fire 5, .perform 5 .refresher, .begin 0,
      .send [(.diff, diff)], .perform 5 .diffRouter, .perform 5 (.worker "A" 0),
      .changeDirectory { catalog := .ofListings [listing "A", listing "C"] }]
    let third : List Move := second ++ [.conclude 6 0, .begin 1,
      .changeDirectory { failures := 1 }]
    let as : List Move := third ++ [.conclude 7 1]
    new config directory = .ok t ∧
    (t.moves asking).turns =
      { current? := some { owner := .periodic, seen? := some [] },
        waiting := [.caller 0, .caller 1] } ∧
    t.board.serially (t.trace as) = ((t.moves as).board,
      [{ added := ["A", "B"] }, { added := ["C"], removed := ["B"] }]) ∧
    ((t.moves second).board.find? "A").map (fun r => (r.serial, r.book.uid)) = some (0, 5) ∧
    (t.moves (second ++ [.conclude 6 0])).board.find? "A" = (t.moves second).board.find? "A" ∧
    (∃ log, (t.moves as).board = { (t.moves third).board with log }) := by
  intro config listing directory t diff asking second third as
  have hnew : new config directory = .ok t := rfl
  have hturns : (t.moves asking).turns =
      { current? := some { owner := .periodic, seen? := some [] },
        waiting := [.caller 0, .caller 1] } := by
    unfold t asking
    cbv
  have houtcomes : t.outcomes as =
      [{ added := ["A", "B"] }, { added := ["C"], removed := ["B"] }] := by
    unfold t as third second asking
    cbv
  have hsecond : ((t.moves second).board.find? "A").map
      (fun r => (r.serial, r.live, r.book.uid)) = some (0, true, 5) := by
    unfold t second asking
    cbv
  have hlisted : (t.moves second).directory =
      { catalog := .ofListings [listing "A", listing "C"] } := by
    unfold t second asking
    cbv
  have hanswer₂ : ((t.moves second).answer? (.conclude 6 0)).bind RefreshAnswer.outcome? =
      some { added := ["C"], removed := ["B"] } := by
    unfold t second asking
    cbv
  have hanswer₃ : ((t.moves third).answer? (.conclude 7 1)).map RefreshAnswer.outcome? =
      some none := by
    unfold t third second asking
    cbv
  have hspared : ∀ name, Move.loseWorker name ∉ as := by
    simp [as, third, second, asking]
  -- from here on only these facts about the tracker count
  have hthird : t.moves as = (t.moves third).move (.conclude 7 1) := moves_concat t third _
  clear_value t as third second
  obtain ⟨hunbroken, hserial, hends⟩ := cycles_one_after_another hnew
  have hwhole := hserial as (hunbroken as hspared)
  rw [houtcomes] at hwhole
  -- A is live and listed as the second cycle ends
  have hkept : (t.moves (second ++ [.conclude 6 0])).board.find? "A" =
      (t.moves second).board.find? "A" := by
    obtain ⟨r, hr, hread⟩ := Option.map_eq_some_iff.1 hsecond
    have hlive : r.live = true := congrArg (·.2.1) hread
    obtain ⟨answer, hanswer, houtcome⟩ := Option.bind_eq_some_iff.1 hanswer₂
    obtain ⟨first, since, owner, now, live, -, -, hcases⟩ :=
      (hends second (.conclude 6 0)).2 answer hanswer
    rcases hcases with ⟨fault, log, rfl, -⟩ | ⟨outcome, rfl, -, -, hleft⟩
    · cases houtcome
    · rw [hlisted] at hleft
      obtain ⟨hsame, -⟩ := hleft "A" r hr hlive
        ((Catalog.faithful_ofListings [listing "A", listing "C"]).not_aliased "A")
      rw [if_pos (by decide)] at hsame
      rw [moves_concat, hsame, hr]
  have hfailed : ∃ log, (t.moves as).board = { (t.moves third).board with log } := by
    obtain ⟨answer, hanswer, houtcome⟩ := Option.map_eq_some_iff.1 hanswer₃
    obtain ⟨first, since, owner, now, live, -, -, hcases⟩ :=
      (hends third (.conclude 7 1)).2 answer hanswer
    rcases hcases with ⟨fault, log, rfl, -, hboard⟩ | ⟨outcome, rfl, -⟩
    · rw [hthird]
      exact ⟨log, hboard⟩
    · cases houtcome
  refine ⟨hnew, hturns, hwhole, ?_, hkept, hfailed⟩
  obtain ⟨r, hr, hread⟩ := Option.map_eq_some_iff.1 hsecond
  rw [hr]
  exact congrArg (fun read => some (read.1, read.2.2)) hread

/-- **An entry that is listed under a key of its own replaces a live registration,** and its
instrument is told to have been added: neither the one nor the other is ruled out for directories
at large. -/
theorem live_worker_replaced_under_alias :
    ¬ ∀ (config : Config) (directory : Directory) (t : Tracker) (as : List Move) (a : Move)
        (outcome : RefreshOutcome) (name : String) (r r' : Registration),
      new config directory = .ok t →
      (t.moves as).answer? a = some (.done outcome) →
      (t.moves as).board.find? name = some r → r.live = true →
      ((t.moves as).move a).board.find? name = some r' →
      name ∉ outcome.added ∨ r'.serial = r.serial := by
  intro hall
  let config : Config := { windowSize := 2, queueCapacity := 2 }
  let listing : Listing := { instrument := "A", timestamp := 0, book := .empty "A" }
  let directory : Directory := { catalog := .ofListings [listing] }
  let t : Tracker := { board := .start config, directory }
  let diff : Message := .diff { instrument := "A", updateId := 5, timestamp := 0 }
  let as : List Move := [.start 0, .perform 0 .refresher, .send [(.diff, diff)],
    .perform 0 .diffRouter, .perform 0 (.worker "A" 0),
    .changeDirectory { directory with aliases := [("K", listing)] }, .ask 0, .begin 0]
  have hnew : new config directory = .ok t := rfl
  have hanswer : ((t.moves as).answer? (.conclude 0 0)).bind RefreshAnswer.outcome? =
      some { added := ["A"] } := by
    unfold t
    cbv
  have hbefore : ((t.moves as).board.find? "A").map (fun r => (r.serial, r.live)) =
      some (0, true) := by
    unfold t
    cbv
  have hafter : (((t.moves as).move (.conclude 0 0)).board.find? "A").map (·.serial) = some 1 := by
    unfold t
    cbv
  obtain ⟨r, hr, hread⟩ := Option.map_eq_some_iff.1 hbefore
  obtain ⟨hserial, hlive⟩ := Prod.mk.inj hread
  obtain ⟨r', hr', hserial'⟩ := Option.map_eq_some_iff.1 hafter
  obtain ⟨answer, hanswer, houtcome⟩ := Option.bind_eq_some_iff.1 hanswer
  cases answer with
  | done outcome =>
      obtain rfl := Option.some.inj houtcome
      rcases hall config directory t as (.conclude 0 0) _ "A" r r' hnew hanswer hr hlive hr' with
        hnot | hsame
      · exact hnot List.mem_cons_self
      · rw [hserial, hserial'] at hsame
        cases hsame
  | _ => cases houtcome

end Tracker

end MarketDepth
