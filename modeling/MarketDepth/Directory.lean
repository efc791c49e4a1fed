/-
**The directory of instruments.**

A directory says which instruments are to be tracked and hands out a first book for each.  Its
catalog is kept by hand; around the catalog it may be slow, fail, want other names than it has, and
list an entry under a key that is not the entry's own instrument.

Main definitions:

* `MarketDepth.Listing`, `MarketDepth.Catalog` — the entries and their table;
* `MarketDepth.Directory` — the catalog with its ways to misbehave;
* `MarketDepth.Directory.lookup` — **one look-up**, which fails as often as the directory was told.
-/

import MarketDepth.Book
import MarketDepth.Fault
import MarketDepth.NameTable

set_option relaxedAutoImplicit false
set_option autoImplicit false

namespace MarketDepth

/-- An instrument to be tracked, with the book to start from and the time it was fetched at. -/
structure Listing where
  instrument : String
  timestamp : UInt64
  book : Book
  deriving DecidableEq, Inhabited

/-- Entries by key. -/
abbrev Catalog := NameTable Listing

namespace Catalog

/-- Adds an entry under its instrument, in place of the one that may be there. -/
def add (catalog : Catalog) (listing : Listing) : Catalog :=
  catalog.insert listing.instrument listing

/-- The catalog of a list of entries; of two for one instrument the later counts. -/
def ofListings (listings : List Listing) : Catalog :=
  listings.foldl add .empty

end Catalog

/-- A directory of instruments. -/
structure Directory where
  catalog : Catalog := .empty
  /-- So many look-ups will still fail. -/
  failures : Nat := 0
  /-- A look-up takes so many milliseconds. -/
  delay : Nat := 0
  /-- The names that the directory claims to want, if not those in its catalog. -/
  wanted? : Option (List String) := none
  /-- Entries that a look-up finds besides the catalog's, under keys of their own. -/
  aliases : List (String × Listing) := []
  deriving DecidableEq, Inhabited

namespace Directory

/-- What a look-up finds when it does not fail. -/
def contents (directory : Directory) : Catalog :=
  directory.catalog.insertAll directory.aliases

/-- **One look-up,** and the directory after it. -/
def lookup (directory : Directory) : Except Fault Catalog × Directory :=
  match directory.failures with
  | 0 => (.ok directory.contents, directory)
  | left + 1 =>
      (.error (.dataSource ("directory unavailable (" ++ toString left ++ " left)")),
        { directory with failures := left })

/-- How many names the directory wants. -/
def wantedCount (directory : Directory) : Nat :=
  match directory.wanted? with
  | some names => names.length
  | none => directory.catalog.size

theorem lookup_of_failures_eq_zero {directory : Directory} (h : directory.failures = 0) :
    directory.lookup = (.ok directory.contents, directory) := by
  simp [lookup, h]

theorem lookup_of_failures_ne_zero {directory : Directory} (h : directory.failures ≠ 0) :
    ∃ fault, directory.lookup.1 = .error fault := by
  unfold lookup
  split
  next hzero => exact absurd hzero h
  next => exact ⟨_, rfl⟩

/-- A look-up that succeeds leaves the directory alone; one that fails uses up a failure. -/
theorem lookup_cases (directory : Directory) :
    directory.lookup = (.ok directory.contents, directory) ∨
      ∃ fault after, directory.lookup = (.error fault, after) ∧
        after.failures + 1 = directory.failures := by
  unfold lookup
  split
  · exact .inl rfl
  next left h => exact .inr ⟨_, _, rfl, h.symm⟩

/-- What a look-up finds is what the directory has. -/
theorem eq_contents_of_lookup {directory : Directory} {found : Catalog}
    (h : directory.lookup.1 = .ok found) : found = directory.contents := by
  rcases directory.lookup_cases with hok | ⟨_, _, herror, -⟩
  · rw [hok] at h
    exact (Except.ok.inj h).symm
  · rw [herror] at h
    cases h

end Directory

end MarketDepth
