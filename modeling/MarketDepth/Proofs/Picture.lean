/-
**What a book says about the market.**

A picture is a book without its representation: the size offered at every price of both sides, and
the id of the update that the sizes stand at.  Diffs overwrite sizes in a picture, and a snapshot
is a picture by itself.  A book *shows* a picture when its ladders are sound and mean the picture's
sizes; there is one pair of ladders at most that shows a given picture.

Main definitions:

* `MarketDepth.Picture`, with `Picture.update` and `Picture.ofSnapshot`;
* `MarketDepth.Book.Shows` — **a book and a picture agree.**

Main results:

* `MarketDepth.Book.Shows.bids_eq`, `MarketDepth.Book.Shows.asks_eq` — a picture determines the
  ladders that show it;
* `MarketDepth.Book.Shows.foldl_applyDiff`, `MarketDepth.Book.shows_replaceLevels` — applying
  diffs and replacing the levels do to a book what they do to its picture;
* `MarketDepth.Picture.ofSnapshot_eq_of_lists` — **a snapshot that lists the offers of a picture,
  in whatever order, is that picture.**
-/

import MarketDepth.Book
import MarketDepth.Proofs.Ladder

set_option relaxedAutoImplicit false
set_option autoImplicit false

namespace MarketDepth

/-! ### Pictures -/

/-- The sizes offered at all prices, 0 where nothing is offered, as of an update. -/
@[ext]
structure Picture where
  bids : UInt64 → UInt64
  asks : UInt64 → UInt64
  /-- The id of the update that the sizes stand at. -/
  uid : UInt64

namespace Picture

/-- The picture after a diff. -/
def update (t : Picture) (diff : Update) : Picture :=
  { bids := overwrite t.bids diff.bids
    asks := overwrite t.asks diff.asks
    uid := diff.updateId }

/-- The picture that a snapshot gives. -/
def ofSnapshot (snapshot : Update) : Picture :=
  { bids := overwrite (fun _ => 0) snapshot.bids
    asks := overwrite (fun _ => 0) snapshot.asks
    uid := snapshot.updateId }

@[simp] theorem uid_update (t : Picture) (d : Update) : (t.update d).uid = d.updateId := rfl

@[simp] theorem uid_ofSnapshot (s : Update) : (ofSnapshot s).uid = s.updateId := rfl

end Picture

/-! ### Snapshots that list a picture -/

/-- The levels are the offers among the sizes, in whatever order. -/
def Lists (levels : List Level) (sizes : UInt64 → UInt64) : Prop :=
  ∀ l : Level, l ∈ levels ↔ l.size ≠ 0 ∧ sizes l.price = l.size

/-- Where the levels of a list agree with some sizes, and so do the sizes at the other prices, the
list overwrites to them. -/
theorem overwrite_eq_of_agree {levels : List Level} {before sizes : UInt64 → UInt64}
    (hmem : ∀ l ∈ levels, sizes l.price = l.size)
    (hrest : ∀ p, (∀ l ∈ levels, l.price ≠ p) → before p = sizes p) :
    overwrite before levels = sizes := by
  induction levels generalizing before with
  | nil => exact funext fun p => hrest p fun _ hl => absurd hl List.not_mem_nil
  | cons l ls ih =>
      rw [overwrite_cons]
      refine ih (fun x hx => hmem x (List.mem_cons_of_mem _ hx)) ?_
      intro p hp
      by_cases hpl : p = l.price
      · rw [hpl, Function.update_self, hmem l List.mem_cons_self]
      · rw [Function.update_of_ne hpl]
        refine hrest p ?_
        intro x hx
        rcases List.mem_cons.1 hx with rfl | hx
        · exact Ne.symm hpl
        · exact hp x hx

theorem Lists.overwrite_eq {levels : List Level} {sizes : UInt64 → UInt64}
    (h : Lists levels sizes) : overwrite (fun _ => 0) levels = sizes := by
  refine overwrite_eq_of_agree (fun l hl => ((h l).1 hl).2) ?_
  intro p hp
  by_contra hne
  exact hp ⟨p, sizes p⟩ ((h ⟨p, sizes p⟩).2 ⟨Ne.symm hne, rfl⟩) rfl

/-- **A snapshot that lists the offers of a picture is that picture.** -/
theorem Picture.ofSnapshot_eq_of_lists {s : Update} {t : Picture} (hbids : Lists s.bids t.bids)
    (hasks : Lists s.asks t.asks) (huid : s.updateId = t.uid) : Picture.ofSnapshot s = t :=
  Picture.ext hbids.overwrite_eq hasks.overwrite_eq huid

/-! ### Books that show a picture -/

namespace Book

/-- **The book shows a picture:** both ladders are sound and mean its sizes, and the ids agree. -/
structure Shows (book : Book) (t : Picture) : Prop where
  bids_sound : book.bids.Sound
  asks_sound : book.asks.Sound
  bids : book.bids.sizeAt = t.bids
  asks : book.asks.sizeAt = t.asks
  uid : book.uid = t.uid

namespace Shows

variable {book book' : Book} {t : Picture}

/-- A picture determines the bids that show it. -/
theorem bids_eq (h : book.Shows t) (h' : book'.Shows t) : book.bids = book'.bids :=
  h.bids_sound.eq_of_sizeAt_eq h'.bids_sound (h.bids.trans h'.bids.symm)

/-- A picture determines the asks that show it. -/
theorem asks_eq (h : book.Shows t) (h' : book'.Shows t) : book.asks = book'.asks :=
  h.asks_sound.eq_of_sizeAt_eq h'.asks_sound (h.asks.trans h'.asks.symm)

theorem applyDiff (h : book.Shows t) (d : Update) : (book.applyDiff d).Shows (t.update d) where
  bids_sound := h.bids_sound.setAll d.bids
  asks_sound := h.asks_sound.setAll d.asks
  bids := (Ladder.sizeAt_setAll book.bids d.bids).trans (congrArg (overwrite · d.bids) h.bids)
  asks := (Ladder.sizeAt_setAll book.asks d.asks).trans (congrArg (overwrite · d.asks) h.asks)
  uid := rfl

theorem foldl_applyDiff (h : book.Shows t) (ds : List Update) :
    (ds.foldl Book.applyDiff book).Shows (ds.foldl Picture.update t) := by
  induction ds generalizing book t with
  | nil => exact h
  | cons d ds ih => exact ih (h.applyDiff d)

end Shows

/-- Whatever a book held, with the levels of a snapshot it shows the snapshot. -/
theorem shows_replaceLevels (book : Book) (s : Update) :
    (book.replaceLevels s).Shows (.ofSnapshot s) where
  bids_sound := Ladder.sound_ofLevels s.bids
  asks_sound := Ladder.sound_ofLevels s.asks
  bids := Ladder.sizeAt_ofLevels s.bids
  asks := Ladder.sizeAt_ofLevels s.asks
  uid := rfl

end Book

end MarketDepth
