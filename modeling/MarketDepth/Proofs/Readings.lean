/-
**What can be read from a book.**

A book is read in many ways: its levels one by one, the best level of a side, the best few, how
many there are, whether there are any, and the distance between the sides.  On a sound book the
readings tell one story.  A side lists exactly what it offers, best price first and each price
once, and everything else that is read of it can be read from that list.  Every book that begins
empty or with a snapshot stays sound under all operations, so this holds of every book there is.

Main definitions:

* `MarketDepth.Ladder.Legible`, `MarketDepth.Book.Legible` — **the readings agree**;
* `MarketDepth.Book.Origin` — how a book begins.

Main results:

* `MarketDepth.Ladder.Sound.best?_eq_some_iff` — the best level is the one that outranks the others;
* `MarketDepth.Ladder.Sound.ncard_offered` — each price that is offered counts once;
* `MarketDepth.Book.Sound.legible` — the readings of a sound book agree;
* `MarketDepth.Book.legible_performAll` — **and so do those of every book there is.**
-/

import MarketDepth.Proofs.Operations

set_option relaxedAutoImplicit false
set_option autoImplicit false

namespace MarketDepth

theorem toNat_subSaturating (a b : UInt64) :
    (subSaturating a b).toNat = a.toNat - b.toNat := by
  unfold subSaturating
  split
  next h => exact UInt64.toNat_sub_of_le _ _ h
  next h =>
    rw [UInt64.le_iff_toNat_le] at h
    rw [UInt64.toNat_zero]
    omega

/-! ### One side -/

namespace Ladder

variable {side : Side}

/-- **What is read of a side agrees with its list of levels,** and that with what it offers. -/
structure Legible (ladder : Ladder side) : Prop where
  /-- No level is empty. -/
  sized : ∀ l ∈ ladder.levels, l.size ≠ 0
  /-- The levels stand best first, and no price occurs twice. -/
  ordered : ladder.levels.Pairwise fun x y => side.outranks x.price y.price
  /-- The levels are what the side offers. -/
  offered : ∀ price size, ⟨price, size⟩ ∈ ladder.levels ↔ ladder.sizeAt? price = some size
  /-- The best level stands first. -/
  best_first : ladder.best? = ladder.levels.head?
  /-- The best level is the one whose price outranks all others. -/
  best_outranks : ∀ l, ladder.best? = some l ↔
    l ∈ ladder.levels ∧ ∀ x ∈ ladder.levels, x = l ∨ side.outranks l.price x.price
  /-- There is no best level exactly when there is no level. -/
  best_none : ladder.best? = none ↔ ladder.levels = []
  /-- The best `n` levels are the first `n`, or all if there are fewer. -/
  top : ∀ n, ladder.top n <+: ladder.levels ∧
    (ladder.top n).length = min n ladder.levels.length
  /-- The count is the length of the list. -/
  count_length : ladder.count = ladder.levels.length
  /-- It is also the number of prices at which something is offered. -/
  count_offered : ladder.count = {price | ladder.sizeAt? price ≠ none}.ncard
  /-- The side is empty exactly when it counts no level. -/
  isEmpty : ladder.isEmpty = true ↔ ladder.count = 0

/-- The best level is the one that outranks the others. -/
theorem Sound.best?_eq_some_iff {ladder : Ladder side} (h : ladder.Sound) {l : Level} :
    ladder.best? = some l ↔
      l ∈ ladder.levels ∧ ∀ x ∈ ladder.levels, x = l ∨ side.outranks l.price x.price := by
  have hordered := h.ordered
  unfold best?
  cases hlevels : ladder.levels with
  | nil => simp
  | cons y ys =>
      rw [hlevels, List.pairwise_cons] at hordered
      rw [List.head?_cons, Option.some_inj]
      constructor
      · rintro rfl
        refine ⟨List.mem_cons_self, ?_⟩
        intro x hx
        exact (List.mem_cons.1 hx).imp id (hordered.1 x)
      · rintro ⟨hl, hbest⟩
        rcases List.mem_cons.1 hl with rfl | hl
        · rfl
        · -- of two levels, not each can outrank the other
          rcases hbest y List.mem_cons_self with rfl | hly
          · rfl
          · rw [Side.outranks_asymm (hordered.1 l hl)] at hly
            exact absurd hly Bool.false_ne_true

/-- Each price that a sound ladder offers counts once. -/
theorem Sound.ncard_offered {ladder : Ladder side} (h : ladder.Sound) :
    {price | ladder.sizeAt? price ≠ none}.ncard = ladder.levels.length := by
  have hnodup : (ladder.levels.map (·.price)).Nodup := by
    refine List.pairwise_map.2 (h.ordered.imp ?_)
    intro x y hxy heq
    rw [heq, Side.outranks_irrefl] at hxy
    exact Bool.false_ne_true hxy
  have hoffered : {price | ladder.sizeAt? price ≠ none} =
      ((ladder.levels.map (·.price)).toFinset : Set UInt64) := by
    ext price
    rw [List.coe_toFinset, Set.mem_ofPred_eq, Set.mem_ofPred_eq, List.mem_map,
      Option.ne_none_iff_exists']
    constructor
    · rintro ⟨size, hsize⟩
      exact ⟨⟨price, size⟩, h.sizeAt?_eq_some_iff.1 hsize, rfl⟩
    · rintro ⟨x, hx, rfl⟩
      exact ⟨x.size, h.sizeAt?_eq_some_iff.2 hx⟩
  rw [hoffered, Set.ncard_coe_finset, List.toFinset_card_of_nodup hnodup, List.length_map]

/-- **The readings of a sound ladder agree.** -/
theorem Sound.legible {ladder : Ladder side} (h : ladder.Sound) : ladder.Legible where
  sized := h.nonempty
  ordered := h.ordered
  offered := fun _ _ => h.sizeAt?_eq_some_iff.symm
  best_first := rfl
  best_outranks := fun _ => h.best?_eq_some_iff
  best_none := List.head?_eq_none_iff
  top := fun n => ⟨List.take_prefix n _, List.length_take⟩
  count_length := rfl
  count_offered := h.ncard_offered.symm
  isEmpty := List.isEmpty_iff_length_eq_zero

end Ladder

/-! ### Both sides -/

namespace Book

/-- **What is read of a book agrees with the lists of its levels.** -/
structure Legible (book : Book) : Prop where
  bids : book.bids.Legible
  asks : book.asks.Legible
  /-- The bids go down in price, each price once. -/
  bids_descending : book.bids.levels.Pairwise fun x y => y.price < x.price
  /-- The asks go up in price, each price once. -/
  asks_ascending : book.asks.levels.Pairwise fun x y => x.price < y.price
  bestBid : book.bestBid? = book.bids.levels.head?
  bestAsk : book.bestAsk? = book.asks.levels.head?
  levelCounts : book.levelCounts = (book.bids.levels.length, book.asks.levels.length)
  /-- The book is empty exactly when it counts no level on either side. -/
  isEmpty : book.isEmpty = true ↔ book.levelCounts = (0, 0)
  depth : book.depth = { bids := book.bids.levels, asks := book.asks.levels }
  /-- There is a spread exactly when there are levels on both sides. -/
  spread_isSome : book.spread?.isSome = true ↔ book.bids.levels ≠ [] ∧ book.asks.levels ≠ []
  /-- The spread is what the best ask is above the best bid, 0 if the book is crossed. -/
  spread : ∀ bid ask, book.bestBid? = some bid → book.bestAsk? = some ask →
    ∃ width, book.spread? = some width ∧
      if bid.price ≤ ask.price then width.toNat + bid.price.toNat = ask.price.toNat else width = 0

theorem spread?_eq {book : Book} {bid ask : Level} (hbid : book.bestBid? = some bid)
    (hask : book.bestAsk? = some ask) :
    book.spread? = some (subSaturating ask.price bid.price) := by
  rw [spread?, hbid, hask]
  rfl

theorem isSome_spread? (book : Book) :
    book.spread?.isSome = true ↔ book.bids.levels ≠ [] ∧ book.asks.levels ≠ [] := by
  unfold spread? bestBid? bestAsk? Ladder.best?
  cases book.bids.levels with
  | nil => simp
  | cons bid bids =>
      cases book.asks.levels with
      | nil => simp
      | cons ask asks => simp

theorem isEmpty_iff (book : Book) : book.isEmpty = true ↔ book.levelCounts = (0, 0) := by
  simp [isEmpty, levelCounts, Ladder.isEmpty, Ladder.count]

/-- The readings of a sound book agree. -/
theorem Sound.legible {book : Book} (h : book.Sound) : book.Legible where
  bids := h.bids.legible
  asks := h.asks.legible
  bids_descending := h.bids.ordered.imp of_decide_eq_true
  asks_ascending := h.asks.ordered.imp of_decide_eq_true
  bestBid := rfl
  bestAsk := rfl
  levelCounts := rfl
  isEmpty := book.isEmpty_iff
  depth := rfl
  spread_isSome := book.isSome_spread?
  spread := by
    intro bid ask hbid hask
    refine ⟨_, spread?_eq hbid hask, ?_⟩
    split
    next h =>
      rw [UInt64.le_iff_toNat_le] at h
      rw [toNat_subSaturating]
      omega
    next h => exact if_neg h

/-- How a book begins. -/
inductive Origin where
  /-- With a name and nothing else. -/
  | blank (instrument : String)
  /-- With the levels of a snapshot. -/
  | snapshot (update : Update)

/-- The book that begins so. -/
def Origin.book : Origin → Book
  | blank instrument => .empty instrument
  | snapshot s => .ofSnapshot s

theorem Origin.sound : (origin : Origin) → origin.book.Sound
  | blank instrument => sound_empty instrument
  | snapshot s => sound_replaceLevels (.empty s.instrument) s

/-- **The readings of every book there is agree:** of every book that begins empty or with a
snapshot, after any diffs, snapshots and trades. -/
theorem legible_performAll (origin : Origin) (ops : List Operation) :
    (origin.book.performAll ops).Legible :=
  (origin.sound.performAll ops).legible

end Book

end MarketDepth
