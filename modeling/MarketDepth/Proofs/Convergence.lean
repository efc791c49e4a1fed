/-
**A cycle converges on the directory.**

Three sets meet in a refresh cycle: the instruments listed, those registered, and those whose worker
lives.  Listed and live ones are left alone, listed ones without a worker begin anew, and whatever
is not listed goes.  The cycle looks at the keys of the listing but registers each entry under its
own instrument; so all of this rests on a catalog's keys being the instruments of its entries, as
they are in every catalog that was made by setting, inserting and removing entries.

Main definitions:

* `MarketDepth.Catalog.Edit`, `MarketDepth.Catalog.edited` — catalogs made by hand;
* `MarketDepth.Catalog.Faithful` — keys are instruments;
* `MarketDepth.Board.ConvergesTo` — **what a cycle comes to.**

Main results:

* `MarketDepth.Catalog.faithful_edited` — catalogs made by hand are faithful;
* `MarketDepth.Board.convergesTo_converge` — **a cycle converges on what it found**;
* `MarketDepth.Board.converge_of_settled` — where nothing is to be done, nothing is done.
-/

import MarketDepth.Proofs.Refresh
import Mathlib.Data.List.Induction
import Mathlib.Data.List.Sort
import Mathlib.Data.String.Basic

set_option relaxedAutoImplicit false
set_option autoImplicit false

namespace MarketDepth

/-! ### Tables with the same names -/

/-- Tables that have values for the same names list them alike. -/
theorem NameTable.names_eq_of_contains {α β : Type} {s : NameTable α} {t : NameTable β}
    (h : ∀ name, s.contains name = t.contains name) : s.names = t.names := by
  refine s.pairwise_names.eq_of_mem_iff t.pairwise_names ?_
  intro name
  rw [mem_names_iff, mem_names_iff, h]

/-! ### Catalogs made by hand -/

namespace Catalog

/-- What is done to a catalog by hand. -/
inductive Edit where
  /-- Replaces all entries. -/
  | set (listings : List Listing)
  /-- Adds an entry or replaces the one of its instrument. -/
  | insert (listing : Listing)
  | remove (instrument : String)

/-- The catalog after an edit. -/
def edit (catalog : Catalog) : Edit → Catalog
  | .set listings => .ofListings listings
  | .insert listing => catalog.add listing
  | .remove instrument => catalog.erase instrument

/-- **The catalog made by a list of edits.** -/
def edited (edits : List Edit) : Catalog :=
  edits.foldl edit .empty

/-- Each entry stands under its own instrument. -/
def Faithful (catalog : Catalog) : Prop :=
  ∀ name listing, catalog.find? name = some listing → listing.instrument = name

theorem faithful_empty : Faithful (.empty : Catalog) :=
  fun _ _ h => absurd h (Option.some_ne_none _).symm

theorem Faithful.add {catalog : Catalog} (h : catalog.Faithful) (listing : Listing) :
    (catalog.add listing).Faithful := by
  intro name l hl
  rw [Catalog.add, NameTable.find?_insert] at hl
  split at hl
  case isTrue hname =>
    obtain rfl := Option.some.inj hl
    exact hname.symm
  case isFalse => exact h name l hl

theorem Faithful.erase {catalog : Catalog} (h : catalog.Faithful) (instrument : String) :
    Faithful (NameTable.erase catalog instrument) := by
  intro name l hl
  rw [NameTable.find?_erase] at hl
  split at hl
  · cases hl
  · exact h name l hl

theorem faithful_ofListings (listings : List Listing) : (ofListings listings).Faithful := by
  have hfold : ∀ (ls : List Listing) (catalog : Catalog), catalog.Faithful →
      (ls.foldl Catalog.add catalog).Faithful := by
    intro ls
    induction ls with
    | nil => exact fun _ h => h
    | cons l ls ih => exact fun catalog h => ih (catalog.add l) (h.add l)
  exact hfold listings .empty faithful_empty

theorem Faithful.edit {catalog : Catalog} (h : catalog.Faithful) (e : Edit) :
    (catalog.edit e).Faithful := by
  cases e with
  | set listings => exact faithful_ofListings listings
  | insert listing => exact h.add listing
  | remove instrument => exact h.erase instrument

/-- **Catalogs made by hand are faithful.** -/
theorem faithful_edited (edits : List Edit) : (edited edits).Faithful := by
  induction edits using List.reverseRecOn with
  | nil => exact faithful_empty
  | append_singleton edits e ih =>
      have hconcat : edited (edits ++ [e]) = (edited edits).edit e := List.foldl_append
      rw [hconcat]
      exact ih.edit e

end Catalog

/-! ### What a cycle registers and retires -/

namespace Board

theorem mem_newListings_iff {seen : List String} {found : Catalog} {l : Listing} :
    l ∈ newListings seen found ↔ ∃ name, found.find? name = some l ∧ name ∉ seen := by
  simp only [newListings, List.mem_mergeSort, List.mem_map, List.mem_filter]
  constructor
  · rintro ⟨⟨name, l'⟩, ⟨hentry, hseen⟩, rfl⟩
    exact ⟨name, NameTable.mem_entries_iff.1 hentry, by simpa using hseen⟩
  · rintro ⟨name, hfind, hseen⟩
    exact ⟨(name, l), ⟨NameTable.mem_entries_iff.2 hfind, by simpa using hseen⟩, rfl⟩

/-- Of a faithful catalog, a cycle registers the keys that it has not seen, in their order. -/
theorem map_instrument_newListings {found : Catalog} (faithful : found.Faithful)
    (seen : List String) :
    (newListings seen found).map (·.instrument) =
      found.names.filter fun name => !seen.contains name := by
  have hkey : ∀ e ∈ found.entries, e.2.instrument = e.1 :=
    fun e he => faithful e.1 e.2 (NameTable.mem_entries_iff.1 he)
  have hsorted : ((found.entries.filter fun e => !seen.contains e.1).map (·.2)).Pairwise
      fun a b => decide (a.instrument ≤ b.instrument) = true := by
    refine List.pairwise_map.2 (List.Pairwise.imp_of_mem ?_ (found.sorted.filter _))
    intro a b ha hb hab
    rw [hkey a (List.mem_of_mem_filter ha), hkey b (List.mem_of_mem_filter hb)]
    exact decide_eq_true (le_of_lt hab)
  rw [newListings, List.mergeSort_of_pairwise hsorted, NameTable.names, List.map_map,
    List.filter_map]
  exact List.map_congr_left fun e he => hkey e (List.mem_of_mem_filter he)

theorem mem_trackedNames_iff {b : Board} {name : String} :
    name ∈ b.trackedNames ↔ ∃ r, b.find? name = some r ∧ r.live = true := by
  simp only [trackedNames, List.mem_map, List.mem_filter]
  constructor
  · rintro ⟨⟨name, r⟩, ⟨hentry, hlive⟩, rfl⟩
    exact ⟨r, NameTable.mem_entries_iff.1 hentry, hlive⟩
  · rintro ⟨r, hfind, hlive⟩
    exact ⟨(name, r), ⟨NameTable.mem_entries_iff.2 hfind, hlive⟩, rfl⟩

/-- All names are tracked when every registration is live. -/
theorem trackedNames_eq_names {b : Board}
    (h : ∀ name r, b.find? name = some r → r.live = true) : b.trackedNames = b.registry.names := by
  have hall : (b.registry.entries.filter (·.2.live)) = b.registry.entries := by
    refine List.filter_eq_self.2 ?_
    rintro ⟨name, r⟩ he
    exact h name r (NameTable.mem_entries_iff.1 he)
  rw [trackedNames, hall, NameTable.names]

section Cycle

variable (b : Board) (now : Nat) (live : Bool) (seen : List String) (found : Catalog)

theorem added_converge :
    (b.converge now live seen found).1.added = (newListings seen found).map (·.instrument) := rfl

theorem removed_converge :
    (b.converge now live seen found).1.removed =
      ((newListings seen found).foldl (·.register now live) b).registry.names.filter
        fun name => !found.contains name := rfl

variable {b seen found}

/-- Where everything listed has been seen and everything registered is listed, a cycle does
nothing. -/
theorem converge_of_settled (listed : ∀ name, found.contains name = true → name ∈ seen)
    (registered : ∀ name, b.registry.contains name = true → found.contains name = true) :
    b.converge now live seen found = ({}, b) := by
  have hnew : newListings seen found = [] := by
    refine List.eq_nil_iff_forall_not_mem.2 ?_
    intro l hl
    obtain ⟨name, hfind, hseen⟩ := mem_newListings_iff.1 hl
    exact hseen (listed name (NameTable.contains_eq_true_iff.2 ⟨l, hfind⟩))
  have hgone : (b.registry.names.filter fun name => !found.contains name) = [] := by
    refine List.filter_eq_nil_iff.2 ?_
    intro name hname
    simp [registered name (NameTable.mem_names_iff.1 hname)]
  simp only [converge, hnew, List.foldl_nil, hgone]
  rfl

end Cycle

/-! ### Convergence -/

/-- **What a cycle comes to** that found a catalog: the board and the outcome are these. -/
structure ConvergesTo (b : Board) (found : Catalog) (now : Nat) (outcome : RefreshOutcome)
    (b' : Board) : Prop where
  /-- The listed instruments are registered, and no others. -/
  names : b'.registry.names = found.names
  /-- They are the ones whose worker lives. -/
  tracked : b'.trackedNames = found.names
  /-- What was live and is listed keeps its registration. -/
  kept : ∀ name r, b.find? name = some r → r.live = true → found.contains name = true →
    b'.find? name = some r
  /-- What is listed and was not live begins anew, with the listed book. -/
  begun : ∀ name l, found.find? name = some l → name ∉ b.trackedNames →
    ∃ serial, b'.find? name = some (.start serial name l.book b.config.windowSize now true)
  /-- What is not listed is gone. -/
  gone : ∀ name, found.contains name = false → b'.find? name = none
  mem_added_iff : ∀ name, name ∈ outcome.added ↔
    found.contains name = true ∧ name ∉ b.trackedNames
  mem_removed_iff : ∀ name, name ∈ outcome.removed ↔
    b.registry.contains name = true ∧ found.contains name = false
  added_sorted : outcome.added.Pairwise (· < ·)
  removed_sorted : outcome.removed.Pairwise (· < ·)

section Found

variable {b : Board} {seen : List String} {found : Catalog}

/-- What was live and is listed is left alone. -/
theorem find?_converge_of_mem_seen (faithful : found.Faithful) (now : Nat) (live : Bool)
    {name : String} (hseen : name ∈ seen) (hfound : found.contains name = true) :
    (b.converge now live seen found).2.find? name = b.find? name := by
  have hnew : name ∉ (newListings seen found).map (·.instrument) := by
    rw [map_instrument_newListings faithful]
    simp [hseen]
  rw [find?_converge, if_pos hfound, find?_foldl_register_of_not_mem hnew]

/-- What is listed and was not live begins anew. -/
theorem find?_converge_of_not_mem_seen (faithful : found.Faithful) (now : Nat) (live : Bool)
    {name : String} {l : Listing} (hseen : name ∉ seen) (hl : found.find? name = some l) :
    ∃ serial, (b.converge now live seen found).2.find? name =
      some (.start serial name l.book b.config.windowSize now live) := by
  have hfound : found.contains name = true := NameTable.contains_eq_true_iff.2 ⟨l, hl⟩
  have hnew : name ∈ (newListings seen found).map (·.instrument) := by
    rw [map_instrument_newListings faithful]
    simp [hseen, NameTable.mem_names_iff, hfound]
  obtain ⟨l', hl', serial, hname, -, -, hfind⟩ := find?_foldl_register_of_mem now live hnew b
  -- the entry that was registered is the listed one, as both stand under their instrument
  obtain ⟨key, hkey, -⟩ := mem_newListings_iff.1 hl'
  have hkeyname : key = name := (faithful key l' hkey).symm.trans hname
  rw [hkeyname, hl] at hkey
  obtain rfl := Option.some.inj hkey
  exact ⟨serial, by rw [find?_converge, if_pos hfound, hfind]⟩

/-- **A cycle converges on what it found,** if what it noted at its beginning is what is live at its
end. -/
theorem convergesTo_converge (faithful : found.Faithful)
    (hseen : ∀ name, name ∈ seen ↔ name ∈ b.trackedNames) (now : Nat) :
    b.ConvergesTo found now (b.converge now true seen found).1
      (b.converge now true seen found).2 := by
  -- after the cycle, every listed instrument has a live registration
  have hlisted : ∀ name l, found.find? name = some l →
      ∃ r, (b.converge now true seen found).2.find? name = some r ∧ r.live = true := by
    intro name l hl
    by_cases hname : name ∈ seen
    · obtain ⟨r, hr, hlive⟩ := mem_trackedNames_iff.1 ((hseen name).1 hname)
      rw [find?_converge_of_mem_seen faithful now true hname
        (NameTable.contains_eq_true_iff.2 ⟨l, hl⟩)]
      exact ⟨r, hr, hlive⟩
    · obtain ⟨serial, hstart⟩ := find?_converge_of_not_mem_seen (b := b) faithful now true hname hl
      exact ⟨_, hstart, rfl⟩
  have hgone : ∀ name, found.contains name = false →
      (b.converge now true seen found).2.find? name = none := by
    intro name hname
    rw [find?_converge, if_neg (by simp [hname])]
  have hnames : (b.converge now true seen found).2.registry.names = found.names := by
    refine NameTable.names_eq_of_contains ?_
    intro name
    cases hname : found.contains name with
    | true =>
        obtain ⟨l, hl⟩ := NameTable.contains_eq_true_iff.1 hname
        obtain ⟨r, hr, -⟩ := hlisted name l hl
        exact NameTable.contains_eq_true_iff.2 ⟨r, hr⟩
    | false => exact Option.isSome_eq_false_iff.2 (Option.isNone_iff_eq_none.2 (hgone name hname))
  have hlive : ∀ name r, (b.converge now true seen found).2.find? name = some r →
      r.live = true := by
    intro name r hr
    cases hname : found.contains name with
    | true =>
        obtain ⟨l, hl⟩ := NameTable.contains_eq_true_iff.1 hname
        obtain ⟨r', hr', hlive⟩ := hlisted name l hl
        rw [hr] at hr'
        obtain rfl := Option.some.inj hr'
        exact hlive
    | false =>
        rw [hgone name hname] at hr
        cases hr
  constructor
  case names => exact hnames
  case tracked => rw [trackedNames_eq_names hlive, hnames]
  case kept =>
    intro name r hr hr' hname
    have htracked := (hseen name).2 (mem_trackedNames_iff.2 ⟨r, hr, hr'⟩)
    rw [find?_converge_of_mem_seen faithful now true htracked hname, hr]
  case begun =>
    intro name l hl hname
    exact find?_converge_of_not_mem_seen faithful now true (fun h => hname ((hseen name).1 h)) hl
  case gone => exact hgone
  case mem_added_iff =>
    intro name
    rw [added_converge, map_instrument_newListings faithful, List.mem_filter,
      NameTable.mem_names_iff, ← hseen name]
    simp
  case mem_removed_iff =>
    intro name
    -- registering the new entries does not concern what is not listed
    have hkept : found.contains name = false →
        ((newListings seen found).foldl (·.register now true) b).find? name = b.find? name := by
      intro hfound
      refine find?_foldl_register_of_not_mem ?_ b
      rw [map_instrument_newListings faithful]
      simp [NameTable.mem_names_iff, hfound]
    rw [removed_converge, List.mem_filter, NameTable.mem_names_iff]
    constructor
    · rintro ⟨hname, hfound⟩
      have hfound : found.contains name = false := by simpa using hfound
      obtain ⟨r, hr⟩ := NameTable.contains_eq_true_iff.1 hname
      exact ⟨NameTable.contains_eq_true_iff.2 ⟨r, (hkept hfound).symm.trans hr⟩, hfound⟩
    · rintro ⟨hname, hfound⟩
      obtain ⟨r, hr⟩ := NameTable.contains_eq_true_iff.1 hname
      exact ⟨NameTable.contains_eq_true_iff.2 ⟨r, (hkept hfound).trans hr⟩, by simp [hfound]⟩
  case added_sorted =>
    rw [added_converge, map_instrument_newListings faithful]
    exact found.pairwise_names.filter _
  case removed_sorted => exact (NameTable.pairwise_names _).filter _

end Found

end Board

end MarketDepth
