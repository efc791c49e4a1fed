/-
**Tables keyed by names.**

A table keeps one value per name, sorted by name (by Unicode code points), so that equal tables
are equal lists and everything that is done for each name has an order.

Main definitions:

* `MarketDepth.NameTable`, with `find?`, `insert`, `erase`, `adjust` and `ofList`;
* `MarketDepth.NameTable.weigh` — the sum of a measure over all values.

Main results:

* `MarketDepth.NameTable.find?_insert`, `find?_erase`, `find?_adjust`, `find?_map` — **each
  operation as seen by a look-up**;
* `MarketDepth.NameTable.mem_entries_iff`, `MarketDepth.NameTable.mem_names_iff` — entries and
  names are what look-ups find;
* `MarketDepth.NameTable.weigh_adjust` — changing one value changes the sum by as much.
-/

set_option relaxedAutoImplicit false
set_option autoImplicit false

namespace MarketDepth

/-- One value per name, sorted by name. -/
structure NameTable (α : Type) where
  entries : List (String × α) := []
  sorted : entries.Pairwise (fun a b => a.1 < b.1) := by exact .nil

namespace NameTable

variable {α β : Type}

instance : Inhabited (NameTable α) := ⟨{}⟩

/-- Tables with the same entries are equal. -/
theorem ext {s t : NameTable α} (h : s.entries = t.entries) : s = t := by
  cases s; cases t; cases h; rfl

instance [DecidableEq α] : DecidableEq (NameTable α) := fun s t =>
  decidable_of_iff (s.entries = t.entries) ⟨ext, fun h => h ▸ rfl⟩

/-! ### Readings -/

/-- The table without entries. -/
def empty : NameTable α := {}

/-- The names, ascending. -/
def names (t : NameTable α) : List String :=
  t.entries.map (·.1)

/-- The values, ascending by name. -/
def values (t : NameTable α) : List α :=
  t.entries.map (·.2)

/-- The value of a name. -/
def find? (t : NameTable α) (name : String) : Option α :=
  t.entries.lookup name

/-- The name has a value. -/
def contains (t : NameTable α) (name : String) : Bool :=
  (t.find? name).isSome

/-- How many names have a value. -/
def size (t : NameTable α) : Nat :=
  t.entries.length

/-- The sum of a measure over all values. -/
def weigh (t : NameTable α) (measure : α → Nat) : Nat :=
  t.values.foldr (fun a n => measure a + n) 0

/-! ### Operations on sorted lists -/

/-- Puts an entry in its place, or in the place of the one of its name. -/
def insertEntry (name : String) (a : α) : List (String × α) → List (String × α)
  | [] => [(name, a)]
  | (n, b) :: rest =>
      if name < n then (name, a) :: (n, b) :: rest
      else if name = n then (name, a) :: rest
      else (n, b) :: insertEntry name a rest

/-- Changes the value of a name, if it has one. -/
def adjustEntry (name : String) (f : α → α) : List (String × α) → List (String × α)
  | [] => []
  | (n, b) :: rest =>
      if name = n then (n, f b) :: rest else (n, b) :: adjustEntry name f rest

theorem mem_insertEntry {name : String} {a : α} {l : List (String × α)} {e : String × α}
    (h : e ∈ insertEntry name a l) : e = (name, a) ∨ e ∈ l := by
  induction l with
  | nil => exact .inl (by simpa [insertEntry] using h)
  | cons x rest ih =>
    obtain ⟨n, b⟩ := x
    simp only [insertEntry] at h
    split at h
    · rcases List.mem_cons.1 h with h | h
      · exact .inl h
      · exact .inr h
    · split at h
      · rcases List.mem_cons.1 h with h | h
        · exact .inl h
        · exact .inr (List.mem_cons_of_mem _ h)
      · rcases List.mem_cons.1 h with h | h
        · exact .inr (h ▸ List.mem_cons_self)
        · exact (ih h).imp_right (List.mem_cons_of_mem _)

theorem pairwise_insertEntry {name : String} {a : α} {l : List (String × α)}
    (h : l.Pairwise (fun x y => x.1 < y.1)) :
    (insertEntry name a l).Pairwise (fun x y => x.1 < y.1) := by
  induction l with
  | nil => simp [insertEntry]
  | cons x rest ih =>
    obtain ⟨n, b⟩ := x
    obtain ⟨first, later⟩ := List.pairwise_cons.1 h
    simp only [insertEntry]
    split
    next lt =>
      refine List.pairwise_cons.2 ⟨fun e he => ?_, h⟩
      rcases List.mem_cons.1 he with rfl | he
      · exact lt
      · exact String.lt_trans lt (first e he)
    next not_lt =>
      split
      next eq => exact List.pairwise_cons.2 ⟨fun e he => eq ▸ first e he, later⟩
      next ne =>
        refine List.pairwise_cons.2 ⟨fun e he => ?_, ih later⟩
        rcases mem_insertEntry he with rfl | he
        · rcases Decidable.em (n < name) with lt | not_lt'
          · exact lt
          · exact absurd (String.le_antisymm (String.not_lt.1 not_lt') (String.not_lt.1 not_lt)) ne
        · exact first e he

theorem map_fst_adjustEntry (name : String) (f : α → α) (l : List (String × α)) :
    (adjustEntry name f l).map (·.1) = l.map (·.1) := by
  induction l with
  | nil => rfl
  | cons x rest ih => simp only [adjustEntry]; split <;> simp [ih]

theorem pairwise_adjustEntry {name : String} {f : α → α} {l : List (String × α)}
    (h : l.Pairwise (fun x y => x.1 < y.1)) :
    (adjustEntry name f l).Pairwise (fun x y => x.1 < y.1) := by
  have key : ∀ m : List (String × α),
      m.Pairwise (fun x y => x.1 < y.1) ↔ (m.map (·.1)).Pairwise (· < ·) := fun m => by
    rw [List.pairwise_map]
  rw [key, map_fst_adjustEntry, ← key]
  exact h

/-! ### Operations on tables -/

/-- Gives a name a value, in place of the one that it may have. -/
def insert (t : NameTable α) (name : String) (a : α) : NameTable α where
  entries := insertEntry name a t.entries
  sorted := pairwise_insertEntry t.sorted

/-- Takes a name out. -/
def erase (t : NameTable α) (name : String) : NameTable α where
  entries := t.entries.filter (·.1 != name)
  sorted := t.sorted.filter _

/-- Changes the value of a name, if it has one. -/
def adjust (t : NameTable α) (name : String) (f : α → α) : NameTable α where
  entries := adjustEntry name f t.entries
  sorted := pairwise_adjustEntry t.sorted

/-- Changes every value. -/
def map (t : NameTable α) (f : α → β) : NameTable β where
  entries := t.entries.map fun e => (e.1, f e.2)
  sorted := List.pairwise_map.2 t.sorted

/-- Enters pairs one after the other, so that of two for one name the later counts. -/
def insertAll (t : NameTable α) (pairs : List (String × α)) : NameTable α :=
  pairs.foldl (fun t e => t.insert e.1 e.2) t

/-- The table of a list of pairs. -/
def ofList (pairs : List (String × α)) : NameTable α :=
  empty.insertAll pairs

/-! ### Operations as seen by a look-up -/

theorem lookup_cons (name n : String) (b : α) (rest : List (String × α)) :
    ((n, b) :: rest).lookup name = if name = n then some b else rest.lookup name := by
  by_cases h : name = n
  · simp [h]
  · simp [List.lookup_cons, beq_eq_false_iff_ne.2 h, h]

@[simp] theorem find?_empty (name : String) : (empty : NameTable α).find? name = none := rfl

theorem find?_insert (t : NameTable α) (name other : String) (a : α) :
    (t.insert name a).find? other = if other = name then some a else t.find? other := by
  show (insertEntry name a t.entries).lookup other = _
  simp only [find?]
  induction t.entries with
  | nil => simp only [insertEntry, lookup_cons]
  | cons x rest ih =>
    obtain ⟨n, b⟩ := x
    simp only [insertEntry]
    split
    · simp only [lookup_cons]
    · split
      next eq => subst eq; simp only [lookup_cons]; split <;> rfl
      next ne =>
        simp only [lookup_cons, ih]
        by_cases ho : other = n
        · subst ho; simp [Ne.symm ne]
        · simp [ho]

theorem find?_erase (t : NameTable α) (name other : String) :
    (t.erase name).find? other = if other = name then none else t.find? other := by
  show (t.entries.filter _).lookup other = _
  simp only [find?]
  induction t.entries with
  | nil => simp
  | cons x rest ih =>
    obtain ⟨n, b⟩ := x
    by_cases hn : n = name
    · subst hn
      simp only [List.filter_cons, bne_self_eq_false, Bool.false_eq_true, if_false, ih,
        lookup_cons]
      split <;> rfl
    · simp only [List.filter_cons, bne_iff_ne, ne_eq, hn, not_false_eq_true, if_true,
        lookup_cons, ih]
      by_cases ho : other = n
      · subst ho; simp [hn]
      · simp [ho]

theorem find?_adjust (t : NameTable α) (name other : String) (f : α → α) :
    (t.adjust name f).find? other =
      if other = name then (t.find? name).map f else t.find? other := by
  show (adjustEntry name f t.entries).lookup other = _
  simp only [find?]
  induction t.entries with
  | nil => simp [adjustEntry]
  | cons x rest ih =>
    obtain ⟨n, b⟩ := x
    simp only [adjustEntry]
    by_cases hn : name = n
    · subst hn
      simp only [if_true, lookup_cons]
      split <;> rfl
    · simp only [hn, if_false, lookup_cons, ih]
      by_cases ho : other = n
      · subst ho; simp [Ne.symm hn]
      · simp [ho]

theorem find?_map (t : NameTable α) (name : String) (f : α → β) :
    (t.map f).find? name = (t.find? name).map f := by
  show (t.entries.map fun e => (e.1, f e.2)).lookup name = _
  simp only [find?]
  induction t.entries with
  | nil => rfl
  | cons x rest ih =>
    obtain ⟨n, b⟩ := x
    simp only [List.map_cons, lookup_cons, ih]
    split <;> rfl

@[simp] theorem names_adjust (t : NameTable α) (name : String) (f : α → α) :
    (t.adjust name f).names = t.names :=
  map_fst_adjustEntry name f t.entries

/-! ### Entries and names -/

theorem mem_iff_lookup {name : String} {a : α} {l : List (String × α)}
    (sorted : l.Pairwise (fun x y => x.1 < y.1)) :
    (name, a) ∈ l ↔ l.lookup name = some a := by
  induction l with
  | nil => simp
  | cons x rest ih =>
    obtain ⟨n, b⟩ := x
    obtain ⟨first, later⟩ := List.pairwise_cons.1 sorted
    rw [List.mem_cons, lookup_cons]
    by_cases hn : name = n
    · subst hn
      -- no later entry has this name
      have not_later : (name, a) ∉ rest := fun h => String.lt_irrefl _ (first (name, a) h)
      simp [not_later, eq_comm]
    · simp [hn, ih later]

theorem mem_entries_iff {t : NameTable α} {name : String} {a : α} :
    (name, a) ∈ t.entries ↔ t.find? name = some a :=
  mem_iff_lookup t.sorted

theorem contains_eq_true_iff {t : NameTable α} {name : String} :
    t.contains name = true ↔ ∃ a, t.find? name = some a :=
  Option.isSome_iff_exists

theorem mem_names_iff {t : NameTable α} {name : String} :
    name ∈ t.names ↔ t.contains name = true := by
  rw [contains_eq_true_iff, names, List.mem_map]
  constructor
  · rintro ⟨⟨n, a⟩, h, rfl⟩
    exact ⟨a, mem_entries_iff.1 h⟩
  · rintro ⟨a, h⟩
    exact ⟨(name, a), mem_entries_iff.2 h, rfl⟩

theorem mem_values_iff {t : NameTable α} {a : α} :
    a ∈ t.values ↔ ∃ name, t.find? name = some a := by
  rw [values, List.mem_map]
  constructor
  · rintro ⟨⟨name, b⟩, h, rfl⟩
    exact ⟨name, mem_entries_iff.1 h⟩
  · rintro ⟨name, h⟩
    exact ⟨(name, a), mem_entries_iff.2 h, rfl⟩

theorem adjust_eq_self {t : NameTable α} {name : String} {f : α → α}
    (h : ∀ a, t.find? name = some a → f a = a) : t.adjust name f = t := by
  have hentry : ∀ l : List (String × α), (∀ a, l.lookup name = some a → f a = a) →
      adjustEntry name f l = l := by
    intro l
    induction l with
    | nil => exact fun _ => rfl
    | cons x rest ih =>
        obtain ⟨n, b⟩ := x
        intro hl
        rw [adjustEntry]
        by_cases hn : name = n
        · rw [if_pos hn, hl b (by rw [lookup_cons, if_pos hn])]
        · rw [if_neg hn, ih fun a ha => hl a (by rw [lookup_cons, if_neg hn, ha])]
  exact ext (hentry t.entries h)

theorem map_eq_self {t : NameTable α} {f : α → α}
    (h : ∀ name a, t.find? name = some a → f a = a) : t.map f = t := by
  refine ext ((List.map_congr_left ?_).trans (List.map_id t.entries))
  rintro ⟨name, a⟩ he
  exact congrArg (Prod.mk name) (h name a (mem_entries_iff.1 he))

/-- The names ascend. -/
theorem pairwise_names (t : NameTable α) : t.names.Pairwise (· < ·) :=
  List.pairwise_map.2 t.sorted

/-! ### Sums -/

theorem weigh_adjustEntry (measure : α → Nat) {name : String} {a : α} (f : α → α)
    {l : List (String × α)} (h : l.lookup name = some a) :
    ((adjustEntry name f l).map (·.2)).foldr (fun a n => measure a + n) 0 + measure a =
      (l.map (·.2)).foldr (fun a n => measure a + n) 0 + measure (f a) := by
  induction l with
  | nil => simp at h
  | cons x rest ih =>
    obtain ⟨n, b⟩ := x
    simp only [adjustEntry]
    by_cases hn : name = n
    · subst hn
      simp only [lookup_cons, if_true, Option.some.injEq] at h
      subst h
      simp only [if_true, List.map_cons, List.foldr_cons]
      omega
    · have h' : rest.lookup name = some a := by
        simpa only [lookup_cons, hn, if_false] using h
      have := ih h'
      simp only [hn, if_false, List.map_cons, List.foldr_cons]
      omega

/-- **Changing one value changes the sum by as much.** -/
theorem weigh_adjust (measure : α → Nat) {t : NameTable α} {name : String} {a : α} (f : α → α)
    (h : t.find? name = some a) :
    (t.adjust name f).weigh measure + measure a = t.weigh measure + measure (f a) :=
  weigh_adjustEntry measure f h

end NameTable

end MarketDepth
