/-
**What a refresh cycle does to the registry.**

A cycle works through two lists of names, one of what it registers and one of what it retires.
Seen by a look-up of one name, only two questions matter: whether the look-up of the directory
found the name, and whether an entry for it was registered anew.

Main results:

* `MarketDepth.Board.find?_register`, `MarketDepth.Board.find?_retire` — one name;
* `MarketDepth.Board.find?_foldl_register_of_mem`, `find?_foldl_register_of_not_mem`,
  `MarketDepth.Board.find?_foldl_retire` — lists of names;
* `MarketDepth.Board.find?_converge` — **a registration after a cycle.**
-/

import MarketDepth.Board.Refresh

set_option relaxedAutoImplicit false
set_option autoImplicit false

namespace MarketDepth.Board

/-! ### One name -/

@[simp] theorem nextSerial_archive (b : Board) (instrument : String) :
    (b.archive instrument).nextSerial = b.nextSerial := by
  unfold archive; split <;> rfl

@[simp] theorem config_register (b : Board) (now : Nat) (live : Bool) (l : Listing) :
    (b.register now live l).config = b.config :=
  config_archive b l.instrument

@[simp] theorem nextSerial_register (b : Board) (now : Nat) (live : Bool) (l : Listing) :
    (b.register now live l).nextSerial = b.nextSerial + 1 :=
  congrArg (· + 1) (nextSerial_archive b l.instrument)

/-- An entry is registered under its own instrument. -/
theorem find?_register (b : Board) (now : Nat) (live : Bool) (l : Listing) (name : String) :
    (b.register now live l).find? name =
      if name = l.instrument then
        some (.start b.nextSerial l.instrument l.book b.config.windowSize now live)
      else b.find? name := by
  have hinsert : (b.register now live l).registry = b.registry.insert l.instrument
      (.start b.nextSerial l.instrument l.book b.config.windowSize now live) := by
    simp [register]
  rw [find?, hinsert, NameTable.find?_insert]
  rfl

@[simp] theorem config_retire (b : Board) (name : String) : (b.retire name).config = b.config :=
  config_archive b name

@[simp] theorem nextSerial_retire (b : Board) (name : String) :
    (b.retire name).nextSerial = b.nextSerial :=
  nextSerial_archive b name

theorem find?_retire (b : Board) (gone name : String) :
    (b.retire gone).find? name = if name = gone then none else b.find? name := by
  have herase : (b.retire gone).registry = b.registry.erase gone := by
    simp [retire]
  rw [find?, herase, NameTable.find?_erase]
  rfl

/-! ### Lists of names -/

@[simp] theorem config_foldl_register (now : Nat) (live : Bool) (ls : List Listing) (b : Board) :
    (ls.foldl (·.register now live) b).config = b.config := by
  induction ls generalizing b with
  | nil => rfl
  | cons l ls ih => rw [List.foldl_cons, ih, config_register]

@[simp] theorem nextSerial_foldl_register (now : Nat) (live : Bool) (ls : List Listing)
    (b : Board) : (ls.foldl (·.register now live) b).nextSerial = b.nextSerial + ls.length := by
  induction ls generalizing b with
  | nil => rfl
  | cons l ls ih => rw [List.foldl_cons, ih, nextSerial_register, List.length_cons]; omega

/-- What is not among the new instruments keeps its registration. -/
theorem find?_foldl_register_of_not_mem {now : Nat} {live : Bool} {ls : List Listing}
    {name : String} (h : name ∉ ls.map (·.instrument)) (b : Board) :
    (ls.foldl (·.register now live) b).find? name = b.find? name := by
  induction ls generalizing b with
  | nil => rfl
  | cons l ls ih =>
      rw [List.map_cons, List.mem_cons, not_or] at h
      rw [List.foldl_cons, ih h.2, find?_register, if_neg h.1]

/-- A new instrument starts from one of its entries, with a number that was not used before. -/
theorem find?_foldl_register_of_mem (now : Nat) (live : Bool) {ls : List Listing} {name : String}
    (h : name ∈ ls.map (·.instrument)) (b : Board) :
    ∃ l ∈ ls, ∃ serial, l.instrument = name ∧ b.nextSerial ≤ serial ∧
      serial < b.nextSerial + ls.length ∧
      (ls.foldl (·.register now live) b).find? name =
        some (.start serial name l.book b.config.windowSize now live) := by
  induction ls generalizing b with
  | nil => exact absurd h List.not_mem_nil
  | cons l ls ih =>
      rw [List.foldl_cons]
      by_cases hlater : name ∈ ls.map (·.instrument)
      · obtain ⟨l', hl', serial, hname, hle, hlt, hfind⟩ := ih hlater (b.register now live l)
        rw [nextSerial_register] at hle hlt
        rw [config_register] at hfind
        refine ⟨l', List.mem_cons_of_mem _ hl', serial, hname, by omega, ?_, hfind⟩
        rw [List.length_cons]
        omega
      · -- the entry at the head is the last one for this name
        have hname : name = l.instrument := by
          rw [List.map_cons] at h
          exact (List.mem_cons.1 h).resolve_right hlater
        refine ⟨l, List.mem_cons_self, b.nextSerial, hname.symm, Nat.le_refl _, ?_, ?_⟩
        · rw [List.length_cons]
          omega
        · rw [find?_foldl_register_of_not_mem hlater, find?_register, if_pos hname, hname]

@[simp] theorem config_foldl_retire (gone : List String) (b : Board) :
    (gone.foldl (·.retire) b).config = b.config := by
  induction gone generalizing b with
  | nil => rfl
  | cons name gone ih => rw [List.foldl_cons, ih, config_retire]

@[simp] theorem nextSerial_foldl_retire (gone : List String) (b : Board) :
    (gone.foldl (·.retire) b).nextSerial = b.nextSerial := by
  induction gone generalizing b with
  | nil => rfl
  | cons name gone ih => rw [List.foldl_cons, ih, nextSerial_retire]

theorem find?_foldl_retire (gone : List String) (b : Board) (name : String) :
    (gone.foldl (·.retire) b).find? name = if name ∈ gone then none else b.find? name := by
  induction gone generalizing b with
  | nil => simp
  | cons first gone ih =>
      rw [List.foldl_cons, ih, find?_retire]
      by_cases hname : name = first <;> simp [hname]

/-! ### A cycle -/

section Cycle

variable (b : Board) (now : Nat) (live : Bool) (seen : List String) (found : Catalog)

/-- A cycle whose entries are registered: what is left is to retire what was not found. -/
theorem registry_converge :
    (b.converge now live seen found).2.registry =
      ((((newListings seen found).foldl (·.register now live) b).registry.names.filter
        fun name => !found.contains name).foldl (·.retire)
          ((newListings seen found).foldl (·.register now live) b)).registry := by
  unfold converge
  dsimp only
  split <;> rfl

@[simp] theorem config_converge : (b.converge now live seen found).2.config = b.config := by
  unfold converge
  dsimp only
  split <;> simp

@[simp] theorem nextSerial_converge :
    (b.converge now live seen found).2.nextSerial =
      b.nextSerial + (newListings seen found).length := by
  have hrecord : ∀ (c : Board) (events : List Event),
      (c.record events).nextSerial = c.nextSerial := fun _ _ => rfl
  unfold converge
  dsimp only
  split <;> simp [hrecord]

/-- **A registration after a cycle:** what the look-up did not find is gone, and what it found is
there as the registering of the new entries has left it. -/
theorem find?_converge (name : String) :
    (b.converge now live seen found).2.find? name =
      if found.contains name then
        ((newListings seen found).foldl (·.register now live) b).find? name
      else none := by
  let c := (newListings seen found).foldl (·.register now live) b
  have hfind : (b.converge now live seen found).2.find? name =
      ((c.registry.names.filter fun n => !found.contains n).foldl (·.retire) c).find? name :=
    congrArg (·.find? name) (registry_converge b now live seen found)
  rw [hfind, find?_foldl_retire]
  cases hfound : found.contains name with
  | true => simp [hfound]; rfl
  | false =>
      cases hc : c.find? name with
      | none => simp
      | some r =>
          have hmem : name ∈ c.registry.names :=
            NameTable.mem_names_iff.2 (NameTable.contains_eq_true_iff.2 ⟨r, hc⟩)
          simp [hmem, hfound]

/-- What a cycle leaves registered was registered before, or is new. -/
theorem find?_converge_cases {name : String} {r : Registration}
    (h : (b.converge now live seen found).2.find? name = some r) :
    b.find? name = some r ∨
      ∃ l ∈ newListings seen found, l.instrument = name ∧ b.nextSerial ≤ r.serial ∧
        r.serial < b.nextSerial + (newListings seen found).length ∧
        r = .start r.serial name l.book b.config.windowSize now live := by
  rw [find?_converge] at h
  split at h
  case isFalse => cases h
  case isTrue =>
    by_cases hnew : name ∈ (newListings seen found).map (·.instrument)
    · obtain ⟨l, hl, serial, hname, hle, hlt, hfind⟩ :=
        find?_foldl_register_of_mem now live hnew b
      obtain rfl := Option.some.inj (hfind.symm.trans h)
      exact .inr ⟨l, hl, hname, hle, hlt, rfl⟩
    · rw [find?_foldl_register_of_not_mem hnew] at h
      exact .inl h

end Cycle

end MarketDepth.Board
