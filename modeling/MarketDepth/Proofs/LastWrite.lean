/-
**The last write wins.**

The levels of a diff state sizes, not changes of sizes, and they are set one after the other.  So a
list of levels, in whatever order and with whatever repetitions, matters only by its last entry for
each price: this is the size that is offered there afterwards, or nothing if the size is 0, and a
price without an entry keeps what it had.  Everything about diffs that follow each other can be
read off this rule.

Main definitions:

* `MarketDepth.lastSize?` — the size of the last entry for a price.

Main results:

* `MarketDepth.overwrite_apply` — overwriting sizes is a matter of the last entries;
* `MarketDepth.Ladder.Sound.sizeAt?_setAll` — **what a side offers after levels have been set**;
* `MarketDepth.Ladder.Sound.setAll_setAll_self`, `MarketDepth.Ladder.Sound.setAll_comm` — setting
  levels twice, and setting levels at other prices;
* `MarketDepth.Book.last_write_wins` — a book after a diff.
-/

import MarketDepth.Proofs.Operations

set_option relaxedAutoImplicit false
set_option autoImplicit false

namespace MarketDepth

/-! ### Last entries -/

/-- The size of the last entry for a price in a list of levels. -/
def lastSize? (levels : List Level) (price : UInt64) : Option UInt64 :=
  (levels.filter (·.price == price)).getLast?.map (·.size)

@[simp] theorem lastSize?_nil (price : UInt64) : lastSize? [] price = none := rfl

/-- An entry counts where no later one does. -/
theorem lastSize?_cons (l : Level) (ls : List Level) (price : UInt64) :
    lastSize? (l :: ls) price =
      (lastSize? ls price).or (if l.price = price then some l.size else none) := by
  unfold lastSize?
  rw [List.filter_cons]
  by_cases h : l.price = price
  · rw [if_pos (beq_iff_eq.2 h), if_pos h, List.getLast?_cons]
    cases (ls.filter (·.price == price)).getLast? with
    | none => rfl
    | some x => rfl
  · rw [if_neg (by simpa using h), if_neg h, Option.or_none]

theorem lastSize?_eq_none_iff {ls : List Level} {price : UInt64} :
    lastSize? ls price = none ↔ ∀ l ∈ ls, l.price ≠ price := by
  simp [lastSize?]

/-- Overwriting sizes is a matter of the last entries. -/
theorem overwrite_apply (sizes : UInt64 → UInt64) (ls : List Level) (price : UInt64) :
    overwrite sizes ls price = (lastSize? ls price).getD (sizes price) := by
  induction ls generalizing sizes with
  | nil => rfl
  | cons l ls ih =>
      rw [overwrite_cons, ih, lastSize?_cons, Function.update_apply]
      cases lastSize? ls price with
      | some size => rfl
      | none =>
          by_cases h : l.price = price
          · rw [if_pos h, if_pos h.symm]
            rfl
          · rw [if_neg h, if_neg (Ne.symm h)]
            rfl

theorem overwrite_overwrite_self (sizes : UInt64 → UInt64) (ls : List Level) :
    overwrite (overwrite sizes ls) ls = overwrite sizes ls := by
  funext price
  rw [overwrite_apply, overwrite_apply]
  cases lastSize? ls price <;> rfl

/-- Entries for different prices do not get in each other's way. -/
theorem overwrite_comm {ls ls' : List Level} (h : ∀ l ∈ ls, ∀ l' ∈ ls', l.price ≠ l'.price)
    (sizes : UInt64 → UInt64) :
    overwrite (overwrite sizes ls) ls' = overwrite (overwrite sizes ls') ls := by
  funext price
  rw [overwrite_apply, overwrite_apply, overwrite_apply, overwrite_apply]
  by_cases hls : ∀ l ∈ ls, l.price ≠ price
  · rw [lastSize?_eq_none_iff.2 hls]
    rfl
  · -- a price of the one list is none of the other
    obtain ⟨l, hl, rfl⟩ : ∃ l ∈ ls, l.price = price := by simpa using hls
    have hls' : lastSize? ls' l.price = none :=
      lastSize?_eq_none_iff.2 fun l' hl' => Ne.symm (h l hl l' hl')
    rw [hls']
    rfl

/-! ### One side -/

namespace Ladder.Sound

variable {side : Side} {ladder : Ladder side}

/-- **What a side offers after levels have been set:** the last size for the price, unless that is
0, and what it offered before where there is no entry for the price. -/
theorem sizeAt?_setAll (h : ladder.Sound) (ls : List Level) (price : UInt64) :
    (ladder.setAll ls).sizeAt? price =
      match lastSize? ls price with
      | some size => if size = 0 then none else some size
      | none => ladder.sizeAt? price := by
  rw [(h.setAll ls).sizeAt?_eq, sizeAt_setAll, overwrite_apply, h.sizeAt?_eq]
  cases lastSize? ls price <;> rfl

theorem setAll_setAll_self (h : ladder.Sound) (ls : List Level) :
    (ladder.setAll ls).setAll ls = ladder.setAll ls := by
  refine ((h.setAll ls).setAll ls).eq_of_sizeAt_eq (h.setAll ls) ?_
  rw [sizeAt_setAll, sizeAt_setAll, overwrite_overwrite_self]

theorem setAll_comm (h : ladder.Sound) {ls ls' : List Level}
    (hprices : ∀ l ∈ ls, ∀ l' ∈ ls', l.price ≠ l'.price) :
    (ladder.setAll ls).setAll ls' = (ladder.setAll ls').setAll ls := by
  refine ((h.setAll ls).setAll ls').eq_of_sizeAt_eq ((h.setAll ls').setAll ls) ?_
  rw [sizeAt_setAll, sizeAt_setAll, sizeAt_setAll, sizeAt_setAll, overwrite_comm hprices]

end Ladder.Sound

/-! ### Both sides -/

namespace Book

theorem Sound.applyDiff_applyDiff_self {book : Book} (h : book.Sound) (d : Update) :
    (book.applyDiff d).applyDiff d = book.applyDiff d := by
  unfold Book.applyDiff
  rw [h.bids.setAll_setAll_self, h.asks.setAll_setAll_self]

/-- Two diffs in one: the levels of the second behind those of the first. -/
theorem applyDiff_append (book : Book) (d d' : Update) :
    book.applyDiff { d' with bids := d.bids ++ d'.bids, asks := d.asks ++ d'.asks } =
      (book.applyDiff d).applyDiff d' := by
  simp only [applyDiff, Ladder.setAll_append]

/-- **In a diff the last write wins.**  After a diff, each side of a sound book offers at a price
the size of the diff's last entry for it, nothing if that size is 0, and what it offered before if
there is no entry; the levels of a side depend on the entries for that side alone.  Hence applying a
diff twice is applying it once, applying two lists of levels joined is applying one after the other,
and diffs with different prices on each side leave the same levels in either order. -/
theorem last_write_wins {book : Book} (h : book.Sound) (d : Update) :
    (∀ price, (book.applyDiff d).bids.sizeAt? price =
      match lastSize? d.bids price with
      | some size => if size = 0 then none else some size
      | none => book.bids.sizeAt? price) ∧
    (∀ price, (book.applyDiff d).asks.sizeAt? price =
      match lastSize? d.asks price with
      | some size => if size = 0 then none else some size
      | none => book.asks.sizeAt? price) ∧
    (∀ (other : Book) (d' : Update), other.asks = book.asks → d'.asks = d.asks →
      (other.applyDiff d').asks = (book.applyDiff d).asks) ∧
    (∀ (other : Book) (d' : Update), other.bids = book.bids → d'.bids = d.bids →
      (other.applyDiff d').bids = (book.applyDiff d).bids) ∧
    (book.applyDiff d).applyDiff d = book.applyDiff d ∧
    (∀ d', book.applyDiff { d' with bids := d.bids ++ d'.bids, asks := d.asks ++ d'.asks } =
      (book.applyDiff d).applyDiff d') ∧
    ∀ d' : Update, (∀ l ∈ d.bids, ∀ l' ∈ d'.bids, l.price ≠ l'.price) →
      (∀ l ∈ d.asks, ∀ l' ∈ d'.asks, l.price ≠ l'.price) →
      ((book.applyDiff d).applyDiff d').bids = ((book.applyDiff d').applyDiff d).bids ∧
      ((book.applyDiff d).applyDiff d').asks = ((book.applyDiff d').applyDiff d).asks := by
  refine ⟨h.bids.sizeAt?_setAll d.bids, h.asks.sizeAt?_setAll d.asks, ?asks, ?bids,
    h.applyDiff_applyDiff_self d, book.applyDiff_append d, ?comm⟩
  case asks =>
    intro other d' hbook hdiff
    rw [applyDiff, applyDiff, hbook, hdiff]
  case bids =>
    intro other d' hbook hdiff
    rw [applyDiff, applyDiff, hbook, hdiff]
  case comm =>
    intro d' hbids hasks
    exact ⟨h.bids.setAll_comm hbids, h.asks.setAll_comm hasks⟩

/-- The bid at 10 is set, removed and set again, the one at 11 is set and removed; a diff at 12
may come before or after. -/
theorem last_write_wins_over_earlier_entries :
    let book : Book := { instrument := "A", bids := .ofLevels [⟨9, 1⟩, ⟨11, 5⟩] }
    let d : Update :=
      { instrument := "A", updateId := 2, timestamp := 0,
        bids := [⟨10, 4⟩, ⟨11, 6⟩, ⟨10, 0⟩, ⟨11, 0⟩, ⟨10, 3⟩] }
    let d' : Update := { instrument := "A", updateId := 3, timestamp := 0, bids := [⟨12, 7⟩] }
    book.Sound ∧ (∀ l ∈ d.bids, ∀ l' ∈ d'.bids, l.price ≠ l'.price) ∧
    (book.applyDiff d).bids.sizeAt? 10 = some 3 ∧ (book.applyDiff d).bids.sizeAt? 11 = none ∧
    (book.applyDiff d).bids.sizeAt? 9 = some 1 ∧
    ((book.applyDiff d).applyDiff d').bids = ((book.applyDiff d').applyDiff d).bids ∧
    ((book.applyDiff d).applyDiff d').bids.levels = [⟨12, 7⟩, ⟨10, 3⟩, ⟨9, 1⟩] := by
  intro book d d'
  have hsound : book.Sound := ⟨Ladder.sound_ofLevels _, Ladder.sound_empty⟩
  have hprices : ∀ l ∈ d.bids, ∀ l' ∈ d'.bids, l.price ≠ l'.price := by decide
  obtain ⟨hbids, -, -, -, -, -, hcomm⟩ := last_write_wins hsound d
  have hasks : ∀ l ∈ d.asks, ∀ l' ∈ d'.asks, l.price ≠ l'.price :=
    fun l hl => absurd hl List.not_mem_nil
  exact ⟨hsound, hprices, hbids 10, hbids 11, hbids 9, (hcomm d' hprices hasks).1, by decide⟩

end Book

end MarketDepth
