/-
**Ladders as sizes at prices.**

What a ladder means is the size that it offers at each price, 0 where it has no level.  Under that
reading, setting a level overwrites the size at one price, whatever order the levels stand in.  A
ladder that is *sound* lists its levels best first, no price twice and no level of size 0; setting
levels keeps a ladder sound, and a sound ladder is determined by its sizes.

Main definitions:

* `MarketDepth.Ladder.sizeAt` — the size offered at a price, 0 if there is none;
* `MarketDepth.Ladder.Sound` — strictly ordered, without empty levels;
* `MarketDepth.overwrite` — sizes after levels have been set one after the other.

Main results:

* `MarketDepth.Ladder.sizeAt?_set` — **setting a level acts at its own price only**;
* `MarketDepth.Ladder.sizeAt_setAll` — setting levels is overwriting sizes;
* `MarketDepth.Ladder.Sound.setAll` — setting levels keeps a ladder sound;
* `MarketDepth.Ladder.Sound.sizeAt?_eq_some_iff` — the levels of a sound ladder are what it offers;
* `MarketDepth.Ladder.Sound.eq_of_sizeAt_eq` — **sound ladders with the same sizes are equal**.
-/

import Mathlib
import MarketDepth.Ladder

set_option relaxedAutoImplicit false
set_option autoImplicit false

namespace MarketDepth

/-! ### The order of prices -/

namespace Side

theorem outranks_irrefl (side : Side) (p : UInt64) : side.outranks p p = false := by
  cases side with
  | bid => simp
  | ask => simp

theorem outranks_trans {side : Side} {p q r : UInt64} (h₁ : side.outranks p q)
    (h₂ : side.outranks q r) : side.outranks p r := by
  cases side with
  | bid => simp only [outranks_bid, decide_eq_true_eq] at *; exact UInt64.lt_trans h₂ h₁
  | ask => simp only [outranks_ask, decide_eq_true_eq] at *; exact UInt64.lt_trans h₁ h₂

theorem outranks_asymm {side : Side} {p q : UInt64} (h : side.outranks p q) :
    side.outranks q p = false := by
  cases hqp : side.outranks q p with
  | false => rfl
  | true => exact (outranks_trans h hqp).symm.trans (outranks_irrefl side p)

/-- Better prices are an asymmetric order on levels. -/
instance instAsymmOutranks (side : Side) :
    Std.Asymm fun x y : Level => side.outranks x.price y.price = true where
  asymm := by
    intro x y hxy hyx
    rw [outranks_asymm hxy] at hyx
    exact Bool.false_ne_true hyx

/-- Of two different prices one is better. -/
theorem outranks_of_ne {side : Side} {p q : UInt64} (hne : p ≠ q)
    (h : side.outranks p q = false) : side.outranks q p := by
  cases side with
  | bid => simp only [outranks_bid, decide_eq_false_iff_not, decide_eq_true_eq] at *; grind
  | ask => simp only [outranks_ask, decide_eq_false_iff_not, decide_eq_true_eq] at *; grind

end Side

/-! ### Sizes at prices -/

/-- The sizes after levels have been set one after the other: of two levels at one price the later
counts. -/
def overwrite (sizes : UInt64 → UInt64) (levels : List Level) : UInt64 → UInt64 :=
  levels.foldl (fun f l => Function.update f l.price l.size) sizes

@[simp] theorem overwrite_nil (sizes : UInt64 → UInt64) : overwrite sizes [] = sizes := rfl

theorem overwrite_cons (sizes : UInt64 → UInt64) (l : Level) (ls : List Level) :
    overwrite sizes (l :: ls) = overwrite (Function.update sizes l.price l.size) ls := rfl

namespace Ladder

variable {side : Side}

/-- The size offered at a price, 0 if there is no level. -/
def sizeAt (ladder : Ladder side) (price : UInt64) : UInt64 :=
  (ladder.sizeAt? price).getD 0

@[simp] theorem sizeAt_empty : (empty : Ladder side).sizeAt = fun _ => 0 := rfl

theorem sizeAt?_remove (ladder : Ladder side) (p price : UInt64) :
    (ladder.remove p).sizeAt? price = if price = p then none else ladder.sizeAt? price := by
  unfold sizeAt? remove
  rw [List.find?_filter]
  split
  next h =>
    rw [List.find?_eq_none.2]
    · rfl
    · intro x _
      simp [h]
  next h =>
    congr 2
    funext x
    by_cases hx : x.price = price
    · simp [hx, h]
    · simp [hx]

theorem sizeAt?_insert (ladder : Ladder side) (l : Level) (price : UInt64)
    (hfree : ladder.sizeAt? l.price = none) :
    (ladder.insert l).sizeAt? price =
      if price = l.price then some l.size else ladder.sizeAt? price := by
  let front := ladder.levels.takeWhile fun x => side.outranks x.price l.price
  let back := ladder.levels.dropWhile fun x => side.outranks x.price l.price
  have parts : ladder.levels = front ++ back := List.takeWhile_append_dropWhile.symm
  have inserted : (ladder.insert l).levels = front ++ l :: back := rfl
  split
  next h =>
    -- no level in front of the new one is at its price
    have hnone : front.find? (·.price == price) = none := by
      rw [sizeAt?, Option.map_eq_none_iff, parts, List.find?_append, Option.or_eq_none_iff] at hfree
      rw [h]
      exact hfree.1
    rw [sizeAt?, inserted, List.find?_append, hnone, List.find?_cons_of_pos (by simp [h])]
    rfl
  next h =>
    have hskip : (l :: back).find? (·.price == price) = back.find? (·.price == price) :=
      List.find?_cons_of_neg (by simpa using fun e => h e.symm)
    rw [sizeAt?, sizeAt?, inserted, parts, List.find?_append, List.find?_append, hskip]

/-- **Setting a level acts at its own price only.** -/
theorem sizeAt?_set (ladder : Ladder side) (l : Level) (price : UInt64) :
    (ladder.set l).sizeAt? price =
      if price = l.price then (if l.size = 0 then none else some l.size)
      else ladder.sizeAt? price := by
  unfold set
  by_cases h0 : l.size = 0
  · rw [if_pos h0, if_pos h0, sizeAt?_remove]
  · have hfree : (ladder.remove l.price).sizeAt? l.price = none := by
      rw [sizeAt?_remove, if_pos rfl]
    rw [if_neg h0, if_neg h0, sizeAt?_insert _ _ _ hfree, sizeAt?_remove]
    split
    · rfl
    · rfl

theorem sizeAt_set (ladder : Ladder side) (l : Level) :
    (ladder.set l).sizeAt = Function.update ladder.sizeAt l.price l.size := by
  funext price
  rw [sizeAt, sizeAt?_set, Function.update_apply]
  by_cases h : price = l.price
  · rw [if_pos h, if_pos h]
    by_cases h0 : l.size = 0
    · rw [if_pos h0, h0]
      rfl
    · rw [if_neg h0]
      rfl
  · rw [if_neg h, if_neg h]
    rfl

/-- Setting levels is overwriting sizes. -/
theorem sizeAt_setAll (ladder : Ladder side) (ls : List Level) :
    (ladder.setAll ls).sizeAt = overwrite ladder.sizeAt ls := by
  induction ls generalizing ladder with
  | nil => rfl
  | cons l ls ih => rw [setAll_cons, ih, sizeAt_set, overwrite_cons]

theorem sizeAt_ofLevels (ls : List Level) :
    (ofLevels ls : Ladder side).sizeAt = overwrite (fun _ => 0) ls :=
  sizeAt_setAll empty ls

/-! ### Sound ladders -/

/-- The levels stand best first, no price occurs twice, and no level is empty. -/
structure Sound (ladder : Ladder side) : Prop where
  ordered : ladder.levels.Pairwise fun x y => side.outranks x.price y.price
  nonempty : ∀ x ∈ ladder.levels, x.size ≠ 0

theorem sound_empty : (empty : Ladder side).Sound :=
  ⟨List.Pairwise.nil, fun _ hx => absurd hx List.not_mem_nil⟩

theorem Sound.remove {ladder : Ladder side} (h : ladder.Sound) (price : UInt64) :
    (ladder.remove price).Sound :=
  ⟨h.ordered.sublist List.filter_sublist, fun x hx => h.nonempty x (List.mem_filter.1 hx).1⟩

/-- Behind the levels that outrank a price, an ordered ladder has only levels that it outranks. -/
theorem outranks_of_mem_dropWhile {levels : List Level} {price : UInt64}
    (hordered : levels.Pairwise fun x y => side.outranks x.price y.price)
    (hfree : ∀ x ∈ levels, x.price ≠ price) :
    ∀ x ∈ levels.dropWhile (fun x => side.outranks x.price price),
      side.outranks price x.price := by
  induction levels with
  | nil => simp
  | cons y ys ih =>
      rw [List.pairwise_cons] at hordered
      rw [List.dropWhile_cons]
      split
      next => exact ih hordered.2 fun x hx => hfree x (List.mem_cons_of_mem _ hx)
      next hy =>
        have hy' : side.outranks price y.price :=
          Side.outranks_of_ne (hfree y List.mem_cons_self) (by simpa using hy)
        intro x hx
        rcases List.mem_cons.1 hx with rfl | hx
        · exact hy'
        · exact Side.outranks_trans hy' (hordered.1 x hx)

theorem Sound.insert {ladder : Ladder side} (h : ladder.Sound) {l : Level} (hl : l.size ≠ 0)
    (hfree : ∀ x ∈ ladder.levels, x.price ≠ l.price) : (ladder.insert l).Sound := by
  have front : ∀ x ∈ ladder.levels.takeWhile (fun x => side.outranks x.price l.price),
      side.outranks x.price l.price :=
    fun x hx => List.all_eq_true.1 List.all_takeWhile x hx
  have back := outranks_of_mem_dropWhile h.ordered hfree
  constructor
  · refine List.pairwise_append.2 ⟨?_, List.pairwise_cons.2 ⟨back, ?_⟩, ?_⟩
    · exact h.ordered.sublist (List.takeWhile_sublist _)
    · exact h.ordered.sublist (List.dropWhile_sublist _)
    · intro x hx y hy
      rcases List.mem_cons.1 hy with rfl | hy
      · exact front x hx
      · exact Side.outranks_trans (front x hx) (back y hy)
  · intro x hx
    rcases List.mem_append.1 hx with hx | hx
    · exact h.nonempty x ((List.takeWhile_sublist _).subset hx)
    · rcases List.mem_cons.1 hx with rfl | hx
      · exact hl
      · exact h.nonempty x ((List.dropWhile_sublist _).subset hx)

theorem Sound.set {ladder : Ladder side} (h : ladder.Sound) (l : Level) : (ladder.set l).Sound := by
  unfold Ladder.set
  split
  next => exact h.remove l.price
  next hl =>
    refine (h.remove l.price).insert hl ?_
    intro x hx
    simpa using (List.mem_filter.1 hx).2

/-- Setting levels keeps a ladder sound. -/
theorem Sound.setAll {ladder : Ladder side} (h : ladder.Sound) (ls : List Level) :
    (ladder.setAll ls).Sound := by
  induction ls generalizing ladder with
  | nil => exact h
  | cons l ls ih => exact ih (h.set l)

theorem sound_ofLevels (ls : List Level) : (ofLevels ls : Ladder side).Sound :=
  sound_empty.setAll ls

/-- In an ordered ladder a level is what is found at its price. -/
theorem find?_of_mem {levels : List Level}
    (hordered : levels.Pairwise fun x y => side.outranks x.price y.price) {x : Level}
    (hx : x ∈ levels) : levels.find? (·.price == x.price) = some x := by
  induction levels with
  | nil => exact absurd hx List.not_mem_nil
  | cons y ys ih =>
      rw [List.pairwise_cons] at hordered
      rcases List.mem_cons.1 hx with rfl | hx
      · exact List.find?_cons_of_pos (by simp)
      · have hne : (y.price == x.price) = false := by
          refine beq_eq_false_iff_ne.2 ?_
          intro heq
          have hyx := hordered.1 x hx
          rw [heq, Side.outranks_irrefl] at hyx
          exact Bool.false_ne_true hyx
        rw [List.find?_cons, hne]
        exact ih hordered.2 hx

/-- What is found at a price of a sound ladder is a level, and the only one there. -/
theorem Sound.sizeAt?_eq_some_iff {ladder : Ladder side} (h : ladder.Sound)
    {price size : UInt64} : ladder.sizeAt? price = some size ↔ ⟨price, size⟩ ∈ ladder.levels := by
  rw [sizeAt?, Option.map_eq_some_iff]
  constructor
  · rintro ⟨x, hfound, rfl⟩
    have hprice : x.price = price := by simpa using List.find?_some hfound
    rw [← hprice]
    exact List.mem_of_find?_eq_some hfound
  · exact fun hx => ⟨⟨price, size⟩, find?_of_mem h.ordered hx, rfl⟩

/-- In a sound ladder, a price without a level is one at which nothing is offered. -/
theorem Sound.sizeAt?_eq {ladder : Ladder side} (h : ladder.Sound) (price : UInt64) :
    ladder.sizeAt? price =
      if ladder.sizeAt price = 0 then none else some (ladder.sizeAt price) := by
  unfold sizeAt
  cases hprice : ladder.sizeAt? price with
  | none => rfl
  | some size => exact (if_neg (h.nonempty _ (h.sizeAt?_eq_some_iff.1 hprice))).symm

/-- The levels of a sound ladder are the prices with an offer. -/
theorem Sound.mem_levels_iff {ladder : Ladder side} (h : ladder.Sound) {x : Level} :
    x ∈ ladder.levels ↔ x.size ≠ 0 ∧ ladder.sizeAt x.price = x.size := by
  rw [← h.sizeAt?_eq_some_iff, h.sizeAt?_eq]
  split
  next hzero =>
    rw [hzero]
    constructor
    · exact fun h => nomatch h
    · exact fun h => absurd h.2.symm h.1
  next hsize =>
    rw [Option.some_inj]
    exact ⟨fun h => ⟨h ▸ hsize, h⟩, And.right⟩

/-- **Sound ladders with the same sizes are equal.** -/
theorem Sound.eq_of_sizeAt_eq {a b : Ladder side} (ha : a.Sound) (hb : b.Sound)
    (h : a.sizeAt = b.sizeAt) : a = b := by
  have hlevels : a.levels = b.levels := by
    refine ha.ordered.eq_of_mem_iff hb.ordered ?_
    intro x
    rw [ha.mem_levels_iff, hb.mem_levels_iff, h]
  cases a
  cases b
  exact congrArg Ladder.mk hlevels

end Ladder

end MarketDepth
