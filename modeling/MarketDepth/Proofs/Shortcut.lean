/-
**The routers' look at a diff is only a shortcut.**

The diff router turns a diff away that is not newer than the book.  It looks at the book as it
stands, which may be behind by everything that still waits in the queue; so which diffs it turns
away depends on when it looks.  What comes of it does not: the worker looks at each diff again, and
as long as no snapshot takes the book back, a diff that the router turned away is one that the
worker would have skipped.

Main definitions:

* `MarketDepth.Board.messages` — the diffs and snapshots for an instrument along a run, in the
  order in which the routers take them;
* `MarketDepth.Reconciler.Agrees` — the same levels, the same id, the same window;
* `MarketDepth.Registration.KeepsUp` — **the invariant**: a registration and a worker that gets all
  messages;
* `MarketDepth.Board.Drains` — a run after which the queue is empty, with nothing lost and no
  snapshot behind the book.

Main results:

* `MarketDepth.Registration.KeepsUp.change` — every change keeps the invariant;
* `MarketDepth.Board.agrees_of_drains` — **book and window are as if no router had looked at any
  message**, in whatever order routers and worker have acted.
-/

import MarketDepth.Proofs.Runs

set_option relaxedAutoImplicit false
set_option autoImplicit false

namespace MarketDepth

/-! ### The messages for an instrument -/

/-- The message, if it came through a router. -/
def Fate.routed? : Fate → Option Message
  | stale m => some m
  | queued m => some m
  | lost m => some m
  | handled _ _ => none

namespace Board

/-- The message for an instrument that a router takes in a step.  What is on the wrong stream is
none of its business. -/
def Step.message? (instrument : String) : Step → Option Message
  | .routeDiff _ m => if m.kind = .diff ∧ m.instrument = instrument then some m else none
  | .routeSnapshot m => if m.kind = .snapshot ∧ m.instrument = instrument then some m else none
  | _ => none

/-- **The messages for an instrument along a run,** in the order in which the routers take them. -/
def messages (instrument : String) (steps : List Step) : List Message :=
  steps.filterMap (·.message? instrument)

theorem messages_concat (instrument : String) (steps : List Step) (s : Step) :
    messages instrument (steps ++ [s]) =
      messages instrument steps ++ (s.message? instrument).toList := by
  rw [messages, messages, List.filterMap_append]
  cases h : s.message? instrument <;> simp [h]

/-- A live registration makes something of every message. -/
theorem routed?_offer {b : Board} {m : Message} {r : Registration}
    (h : b.find? m.instrument = some r) (live : r.live = true) (checkAge : Bool) :
    (Fate.ofAnswer? m (.ok (b.offer m checkAge).1)).bind Fate.routed? = some m := by
  rw [offer_of_find? h]
  split
  · rfl
  · rw [if_neg (by simp [live])]
    split <;> rfl

/-- **What a router takes is what something becomes of.** -/
theorem message?_eq {b : Board} {instrument : String} {r : Registration}
    (h : b.find? instrument = some r) (live : r.live = true) (s : Step) :
    s.message? instrument = (b.fateAt? instrument r s).bind Fate.routed? := by
  cases s with
  | routeDiff now m =>
      simp only [Step.message?, fateAt?]
      by_cases hinst : m.instrument = instrument
      · subst hinst
        by_cases hkind : m.kind = .diff
        · rw [if_pos ⟨hkind, rfl⟩, if_pos rfl, (routeDiff_of_kind hkind now).1,
            routed?_offer h live]
        · -- what a router refuses has no fate
          rw [if_neg fun hm => hkind hm.1, if_pos rfl, routeDiff_of_kind_ne hkind]
          rfl
      · rw [if_neg fun hm => hinst hm.2, if_neg hinst]
        rfl
  | routeSnapshot m =>
      simp only [Step.message?, fateAt?]
      by_cases hinst : m.instrument = instrument
      · subst hinst
        by_cases hkind : m.kind = .snapshot
        · rw [if_pos ⟨hkind, rfl⟩, if_pos rfl, (routeSnapshot_of_kind hkind).1,
            routed?_offer h live]
        · rw [if_neg fun hm => hkind hm.1, if_pos rfl, routeSnapshot_of_kind_ne hkind]
          rfl
      · rw [if_neg fun hm => hinst hm.2, if_neg hinst]
        rfl
  | work now worker =>
      simp only [Step.message?, fateAt?]
      split
      · cases r.inbox <;> rfl
      · rfl
  | _ => rfl

end Board

/-! ### Book and window without the trades -/

/-- The book without what trades have told about it. -/
def Book.untraded (book : Book) : Book :=
  { book with lastTrade? := none, tradeCount := 0, volume := 0 }

namespace Reconciler

/-- The reconciler without what trades have told about its book. -/
def untraded (r : Reconciler) : Reconciler :=
  { r with book := r.book.untraded }

/-- **The same levels, the same id and the same window;** what trades have told may differ. -/
structure Agrees (r r' : Reconciler) : Prop where
  bids : r.book.bids = r'.book.bids
  asks : r.book.asks = r'.book.asks
  uid : r.book.uid = r'.book.uid
  window : r.window = r'.window

theorem Agrees.of_untraded {r r' : Reconciler} (h : r.untraded = r'.untraded) : r.Agrees r' where
  bids := congrArg (·.book.bids) h
  asks := congrArg (·.book.asks) h
  uid := congrArg (·.book.uid) h
  window := congrArg (·.window) h

theorem Agrees.symm {r r' : Reconciler} (h : r.Agrees r') : r'.Agrees r :=
  ⟨h.bids.symm, h.asks.symm, h.uid.symm, h.window.symm⟩

theorem Agrees.trans {r r' r'' : Reconciler} (h : r.Agrees r') (h' : r'.Agrees r'') :
    r.Agrees r'' :=
  ⟨h.bids.trans h'.bids, h.asks.trans h'.asks, h.uid.trans h'.uid, h.window.trans h'.window⟩

/-- Diffs and snapshots do not ask about trades. -/
theorem untraded_handle (r : Reconciler) (m : Message) :
    (r.handle m).untraded = r.untraded.handle m := by
  cases m with
  | diff d =>
      cases hd : r.isStale d with
      | true =>
          have hd' : r.untraded.isStale d = true := hd
          rw [handle_diff_of_stale hd, handle_diff_of_stale hd']
      | false =>
          have hd' : r.untraded.isStale d = false := hd
          rw [handle_diff_of_fresh hd, handle_diff_of_fresh hd']
          rfl
  | snapshot s =>
      -- a replay sets levels and ids, and reads nothing but its diffs
      have hreplay : ∀ (ds : List Update) (book : Book),
          (ds.foldl Book.applyDiff book).untraded = ds.foldl Book.applyDiff book.untraded :=
        fun ds book => (List.foldl_hom Book.untraded fun _ _ => rfl).symm
      exact congrArg (fun book => { r with book }) (hreplay _ (r.book.replaceLevels s))
  | trade t => rfl

/-- The id of the book does not fall, unless a snapshot is behind it. -/
theorem uid_le_handle {r : Reconciler} {m : Message}
    (ahead : ∀ s, m = .snapshot s → r.book.uid ≤ s.updateId) :
    r.book.uid ≤ (r.handle m).book.uid := by
  cases m with
  | diff d =>
      cases hd : r.isStale d with
      | true => rw [handle_diff_of_stale hd]; exact UInt64.le_rfl
      | false =>
          rw [handle_diff_of_fresh hd]
          exact UInt64.le_of_lt (isStale_eq_false_iff.1 hd)
  | snapshot s =>
      rw [handle_snapshot, restore, Book.uid_restore]
      exact UInt64.le_trans (ahead s rfl) (le_latestId _ _)
  | trade t => exact UInt64.le_rfl

end Reconciler

/-! ### A queue without the stale diffs -/

/-- The first list is the second without some of the diffs that are not beyond an id. -/
inductive Shortened (uid : UInt64) : List Message → List Message → Prop
  | nil : Shortened uid [] []
  | keep {inbox all : List Message} (m : Message) (rest : Shortened uid inbox all) :
      Shortened uid (m :: inbox) (m :: all)
  | skip {inbox all : List Message} {d : Update} (old : d.updateId ≤ uid)
      (rest : Shortened uid inbox all) : Shortened uid inbox (.diff d :: all)

namespace Shortened

variable {uid uid' : UInt64} {inbox all : List Message}

theorem refl (uid : UInt64) (all : List Message) : Shortened uid all all := by
  induction all with
  | nil => exact .nil
  | cons m all ih => exact .keep m ih

/-- What was old stays old. -/
theorem mono (h : Shortened uid inbox all) (hle : uid ≤ uid') : Shortened uid' inbox all := by
  induction h with
  | nil => exact .nil
  | keep m _ ih => exact .keep m ih
  | skip old _ ih => exact .skip (UInt64.le_trans old hle) ih

theorem append {inbox' all' : List Message} (h : Shortened uid inbox all)
    (h' : Shortened uid inbox' all') : Shortened uid (inbox ++ inbox') (all ++ all') := by
  induction h with
  | nil => exact h'
  | keep m _ ih => exact .keep m ih
  | skip old _ ih => exact .skip old ih

/-- A shortened queue begins with what comes first once some stale diffs have been skipped. -/
theorem of_cons {m : Message} (h : Shortened uid (m :: inbox) all) :
    ∃ skipped rest, all = skipped ++ m :: rest ∧ Shortened uid [] skipped ∧
      Shortened uid inbox rest := by
  generalize hqueue : m :: inbox = queue at h
  induction h with
  | nil => cases hqueue
  | keep m' rest =>
      obtain ⟨rfl, rfl⟩ := List.cons.inj hqueue
      exact ⟨[], _, rfl, .nil, rest⟩
  | @skip _ all d old _ ih =>
      obtain ⟨skipped, rest, rfl, hskipped, hrest⟩ := ih hqueue
      exact ⟨.diff d :: skipped, rest, rfl, .skip old hskipped, hrest⟩

/-- Stale diffs alone do nothing. -/
theorem handleAll_eq {r : Reconciler} (h : Shortened r.book.uid [] all) : r.handleAll all = r := by
  generalize hqueue : ([] : List Message) = queue at h
  induction h with
  | nil => rfl
  | keep => cases hqueue
  | skip old _ ih =>
      rw [Reconciler.handleAll_cons,
        Reconciler.handle_diff_of_stale (Reconciler.isStale_eq_true_iff.2 old)]
      exact ih hqueue

end Shortened

/-! ### The invariant -/

namespace Registration

/-- **A registration keeps up with a worker that is handed all messages:** what its own worker has
done comes to the same as a part of them, and its queue has the others, but for stale diffs. -/
def KeepsUp (alone : Reconciler) (all : List Message) (r : Registration) : Prop :=
  ∃ done rest, all = done ++ rest ∧ Shortened r.book.uid r.inbox rest ∧
    r.reconciler.untraded = (alone.handleAll done).untraded

namespace KeepsUp

variable {alone : Reconciler} {all : List Message} {r : Registration}

theorem refl (r : Registration) : r.KeepsUp r.reconciler r.inbox :=
  ⟨[], r.inbox, rfl, .refl _ _, rfl⟩

/-- Once the queue is empty, only stale diffs are left to be skipped. -/
theorem agrees (h : r.KeepsUp alone all) (empty : r.inbox = []) :
    r.reconciler.Agrees (alone.handleAll all) := by
  obtain ⟨done, rest, rfl, hrest, hdone⟩ := h
  rw [empty] at hrest
  have huid : (alone.handleAll done).book.uid = r.book.uid :=
    (Reconciler.Agrees.of_untraded hdone).uid.symm
  rw [← huid] at hrest
  rw [Reconciler.handleAll_append, hrest.handleAll_eq]
  exact .of_untraded hdone

theorem stale (h : r.KeepsUp alone all) {d : Update} (old : d.updateId ≤ r.book.uid) :
    r.KeepsUp alone (all ++ [.diff d]) := by
  obtain ⟨done, rest, rfl, hrest, hdone⟩ := h
  refine ⟨done, rest ++ [.diff d], List.append_assoc _ _ _, ?_, hdone⟩
  have happend := hrest.append (.skip old .nil)
  rwa [List.append_nil] at happend

theorem queue (h : r.KeepsUp alone all) (m : Message) :
    { r with inbox := r.inbox ++ [m] }.KeepsUp alone (all ++ [m]) := by
  obtain ⟨done, rest, rfl, hrest, hdone⟩ := h
  exact ⟨done, rest ++ [m], List.append_assoc _ _ _, hrest.append (.refl _ [m]), hdone⟩

/-- The worker gets on by one message and by the stale diffs before it. -/
theorem handle (h : r.KeepsUp alone all) {m : Message} {inbox : List Message}
    (next : r.inbox = m :: inbox) (ahead : ∀ s, m = .snapshot s → r.book.uid ≤ s.updateId)
    (statsInterval now : Nat) :
    ({ r with inbox }.after statsInterval (now, m)).KeepsUp alone all := by
  obtain ⟨done, rest, rfl, hrest, hdone⟩ := h
  rw [next] at hrest
  -- the diffs before `m` that are not in the queue are stale for the other worker too, since its
  -- book stands at the same id
  obtain ⟨skipped, rest, rfl, hskipped, hrest⟩ := hrest.of_cons
  obtain ⟨_, _, _, hafter⟩ := after_frame { r with inbox } statsInterval (now, m)
  have hinbox : ({ r with inbox }.after statsInterval (now, m)).inbox = inbox := by rw [hafter]
  have hreconciler : ({ r with inbox }.after statsInterval (now, m)).reconciler =
      r.reconciler.handle m := reconciler_after _ _ _
  have huid : (alone.handleAll done).book.uid = r.book.uid :=
    (Reconciler.Agrees.of_untraded hdone).uid.symm
  rw [← huid] at hskipped
  refine ⟨done ++ skipped ++ [m], rest, by simp, ?_, ?_⟩
  · -- the diffs still to come that were stale remain so, as the id has not fallen
    rw [hinbox, Registration.book, hreconciler]
    exact hrest.mono (Reconciler.uid_le_handle ahead)
  · rw [hreconciler, Reconciler.untraded_handle, hdone, ← Reconciler.untraded_handle,
      Reconciler.handleAll_append, Reconciler.handleAll_append, hskipped.handleAll_eq]
    rfl

/-- **Every change keeps the invariant,** unless it loses a message, takes the book back to an
older snapshot or ends the worker. -/
theorem change (h : r.KeepsUp alone all) {config : Config} {instrument : String}
    {fate : Option Fate} {r' : Registration} (hchange : r.Change config instrument fate r')
    (fits : ∀ m, fate ≠ some (.lost m))
    (ahead : ∀ s uid, fate = some (.handled (.snapshot s) uid) → uid ≤ s.updateId)
    (live : r'.live = true) :
    r'.KeepsUp alone (all ++ (fate.bind Fate.routed?).toList) := by
  cases hchange with
  | keep => simpa using h
  | stale _ old => exact h.stale old
  | queue => exact h.queue _
  | @lose m => exact absurd rfl (fits m)
  | handle next now =>
      have hhandle := h.handle next (fun s hs => ahead s r.book.uid (by rw [hs]))
        config.statsInterval now
      simpa [Fate.routed?] using hhandle
  | trade execution =>
      rw [Option.bind_none, Option.toList_none, List.append_nil]
      exact h
  | kill => cases live

end KeepsUp

end Registration

/-! ### Runs -/

namespace Board

/-- **A run after which a registration is still there and live, and its queue is empty,** while no
message was lost to the full queue and no snapshot was behind the book as the worker applied it. -/
structure Drains (b : Board) (instrument : String) (r : Registration) (steps : List Step)
    (r' : Registration) : Prop where
  found : (b.takeAll steps).find? instrument = some r'
  same : r'.serial = r.serial
  live : r'.live = true
  empty : r'.inbox = []
  fits : ∀ m, .lost m ∉ b.fates instrument r.serial steps
  ahead : ∀ s uid, .handled (.snapshot s) uid ∈ b.fates instrument r.serial steps →
    uid ≤ s.updateId

/-- A registration keeps up with a worker that is handed all messages, at any time of a run in
which none is lost and no snapshot takes the book back. -/
theorem keepsUp_takeAll {b : Board} {instrument : String} {r : Registration}
    (registered : b.find? instrument = some r) (given : r.serial < b.nextSerial)
    {steps : List Step} (fits : ∀ m, .lost m ∉ b.fates instrument r.serial steps)
    (ahead : ∀ s uid, .handled (.snapshot s) uid ∈ b.fates instrument r.serial steps →
      uid ≤ s.updateId)
    {r' : Registration} (found : (b.takeAll steps).find? instrument = some r')
    (same : r'.serial = r.serial) (live : r'.live = true) :
    r'.KeepsUp r.reconciler (r.inbox ++ messages instrument steps) := by
  induction steps using List.reverseRecOn generalizing r' with
  | nil =>
      obtain rfl := Option.some.inj (registered.symm.trans found)
      simpa [messages] using Registration.KeepsUp.refl r
  | append_singleton steps s ih =>
      rw [takeAll_concat] at found
      rw [fates_concat] at fits ahead
      rcases find?_take_cases found with ⟨r₁, hr₁, hchange⟩ | ⟨_, _, _, _, _, _, _, _, hle, _, _⟩
      · -- the registration was there before the last step, and live, so the step is a change of it
        have hsame : r₁.serial = r.serial := hchange.serial_eq.symm.trans same
        have hlive : r₁.live = true := hchange.live_of_live live
        have hfate := fate?_of_find? hr₁ s
        rw [hsame] at hfate
        rw [hfate] at fits ahead
        have hkeeps := ih (fun m hm => fits m (List.mem_append_left _ hm))
          (fun snapshot uid h => ahead snapshot uid (List.mem_append_left _ h)) hr₁ hsame hlive
        rw [messages_concat, message?_eq hr₁ hlive, ← List.append_assoc]
        refine hkeeps.change hchange ?_ ?_ live
        · intro m hm
          exact fits m (List.mem_append_right _ (by simp [hm]))
        · intro snapshot uid h
          exact ahead snapshot uid (List.mem_append_right _ (by simp [h]))
      · -- a new registration would have a new number
        have hlater := nextSerial_le_takeAll b steps
        omega

/-- **The routers' look at a diff is only a shortcut.**  Let routers and worker act in any order,
and whatever else happens on the board: once the queue is empty, levels, id and window are the same
as if one worker had been handed what waited at first and then all messages, in the order in which
the routers took them, and no router had looked at any.  So the order does not matter. -/
theorem agrees_of_drains {config : Config} {past : List Step} {instrument : String}
    {r : Registration} (registered : ((start config).takeAll past).find? instrument = some r)
    {steps : List Step} {r' : Registration}
    (drains : ((start config).takeAll past).Drains instrument r steps r') :
    r'.reconciler.Agrees (r.reconciler.handleAll (r.inbox ++ messages instrument steps)) ∧
    ∀ steps' r'', ((start config).takeAll past).Drains instrument r steps' r'' →
      messages instrument steps' = messages instrument steps →
      r''.reconciler.Agrees r'.reconciler := by
  have hall : ∀ steps' r'', ((start config).takeAll past).Drains instrument r steps' r'' →
      r''.reconciler.Agrees
        (r.reconciler.handleAll (r.inbox ++ messages instrument steps')) := by
    intro steps' r'' h
    exact (keepsUp_takeAll registered (serial_lt_of_find? past registered) h.fits h.ahead h.found
      h.same h.live).agrees h.empty
  refine ⟨hall steps r' drains, ?_⟩
  intro steps' r'' h hmessages
  have hagrees := hall steps' r'' h
  rw [hmessages] at hagrees
  exact hagrees.trans (hall steps r' drains).symm

/-- A worker that acts at once, and one that lets all messages pass first: the router turns away two
of four diffs, or none. -/
theorem agrees_of_drains_in_two_orders :
    let update (id : UInt64) (bids : List Level) : Update :=
      { instrument := "A", updateId := id, timestamp := 0, bids }
    let first : Message := .diff (update 11 [⟨6, 2⟩])
    let snapshot : Message := .snapshot (update 12 [⟨6, 4⟩])
    let covered : Message := .diff (update 12 [⟨6, 4⟩])
    let last : Message := .diff (update 13 [⟨5, 7⟩])
    let listing : Listing :=
      { instrument := "A", timestamp := 0, book := .ofSnapshot (update 10 [⟨5, 1⟩]) }
    let b : Board := (start { windowSize := 2, queueCapacity := 5 }).takeAll
      [.converge 0 true [] (.ofListings [listing])]
    let r : Registration := .start 0 "A" listing.book 2 0 true
    let promptly : List Step := [.routeDiff 1 first, .work 1 "A", .routeDiff 1 first,
      .routeSnapshot snapshot, .work 1 "A", .routeDiff 1 covered, .routeDiff 1 last, .work 1 "A"]
    let late : List Step := [.routeDiff 1 first, .routeDiff 1 first, .routeSnapshot snapshot,
      .routeDiff 1 covered, .routeDiff 1 last, .work 2 "A", .work 2 "A", .work 2 "A", .work 2 "A",
      .work 2 "A"]
    b.find? "A" = some r ∧
    b.fates "A" 0 promptly = [.queued first, .handled first 10, .stale first, .queued snapshot,
      .handled snapshot 11, .stale covered, .queued last, .handled last 12] ∧
    b.fates "A" 0 late = [.queued first, .queued first, .queued snapshot, .queued covered,
      .queued last, .handled first 10, .handled first 11, .handled snapshot 11,
      .handled covered 12, .handled last 12] ∧
    ∃ r' r'', b.Drains "A" r promptly r' ∧ b.Drains "A" r late r'' ∧
      r'.reconciler.Agrees (r.reconciler.handleAll [first, first, snapshot, covered, last]) ∧
      r''.reconciler.Agrees r'.reconciler := by
  intro update first snapshot covered last listing b r promptly late
  have hr : b.find? "A" = some r := by unfold b; cbv
  have hpromptly : b.fates "A" 0 promptly = [.queued first, .handled first 10, .stale first,
      .queued snapshot, .handled snapshot 11, .stale covered, .queued last, .handled last 12] := by
    unfold b
    cbv
  have hlate : b.fates "A" 0 late = [.queued first, .queued first, .queued snapshot,
      .queued covered, .queued last, .handled first 10, .handled first 11, .handled snapshot 11,
      .handled covered 12, .handled last 12] := by unfold b; cbv
  have hdrained : ∀ steps, steps = promptly ∨ steps = late →
      ((b.takeAll steps).find? "A").map (fun r => (r.serial, r.live, r.inbox)) =
        some (0, true, []) := by
    rintro _ (rfl | rfl) <;> unfold b <;> cbv
  obtain ⟨r', hr', h'⟩ := Option.map_eq_some_iff.1 (hdrained promptly (.inl rfl))
  obtain ⟨r'', hr'', h''⟩ := Option.map_eq_some_iff.1 (hdrained late (.inr rfl))
  simp only [Prod.mk.injEq] at h' h''
  have hdrains' : b.Drains "A" r promptly r' := by
    refine ⟨hr', h'.1, h'.2.1, h'.2.2, ?_, ?_⟩
    · intro m hm
      change _ ∈ b.fates "A" 0 promptly at hm
      simp [hpromptly] at hm
    · intro s uid hs
      change _ ∈ b.fates "A" 0 promptly at hs
      simp only [hpromptly, List.mem_cons, reduceCtorEq, Fate.handled.injEq, false_or, first,
        snapshot, last, Message.snapshot.injEq, false_and, List.not_mem_nil, or_false] at hs
      rw [hs.1, hs.2]
      decide
  have hdrains'' : b.Drains "A" r late r'' := by
    refine ⟨hr'', h''.1, h''.2.1, h''.2.2, ?_, ?_⟩
    · intro m hm
      change _ ∈ b.fates "A" 0 late at hm
      simp [hlate] at hm
    · intro s uid hs
      change _ ∈ b.fates "A" 0 late at hs
      simp only [hlate, List.mem_cons, reduceCtorEq, Fate.handled.injEq, false_or, first,
        snapshot, covered, last, Message.snapshot.injEq, false_and, List.not_mem_nil,
        or_false] at hs
      rw [hs.1, hs.2]
      decide
  obtain ⟨hagrees, hall⟩ := agrees_of_drains hr hdrains'
  have hmessages : messages "A" late = messages "A" promptly := by cbv
  exact ⟨hr, hpromptly, hlate, r', r'', hdrains', hdrains'', hagrees,
    hall late r'' hdrains'' hmessages⟩

end Board

end MarketDepth
