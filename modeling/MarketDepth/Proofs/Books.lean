/-
**Books of the past.**

Who holds the book of a registration can read it for ever, by the number of the registration.  While
the registration is there the book is the one that the worker and the emitter change.  Numbers are
given out once, and no two registrations share one; so when a refresh cycle retires the registration
or replaces it, the book comes to rest as it is then, whatever happens afterwards.

Main definitions:

* `MarketDepth.Board.Numbered` — each number has been given out, to one registration;
* `MarketDepth.Board.Settled` — **the book of a number that will not change any more.**

Main results:

* `MarketDepth.Board.bookOf?_of_find?` — the book of a registration is found by its number;
* `MarketDepth.Board.settled_take` — a registration keeps its number, or its book is settled;
* `MarketDepth.Board.Settled.takeAll` — what is settled stays so.
-/

import MarketDepth.Proofs.Local

set_option relaxedAutoImplicit false
set_option autoImplicit false

namespace MarketDepth

namespace Board

/-- Each current registration has a number that has been given out, and no other has the same. -/
structure Numbered (b : Board) : Prop where
  given : ∀ {name r}, b.find? name = some r → r.serial < b.nextSerial
  unique : ∀ {name name' r r'}, b.find? name = some r → b.find? name' = some r' →
    r.serial = r'.serial → name = name'

/-- **A number whose book has come to rest:** it has been given out, no registration has it any
more, and the book that it had last is kept. -/
structure Settled (b : Board) (serial : Nat) (book : Book) : Prop where
  given : serial < b.nextSerial
  vacant : ∀ {name r}, b.find? name = some r → r.serial ≠ serial
  kept : b.retired.lookup serial = some book

/-! ### Reading by number -/

/-- The book of a registration is found by its number. -/
theorem bookOf?_of_find? {b : Board} (hb : b.Numbered) {name : String} {r : Registration}
    (h : b.find? name = some r) : b.bookOf? r.serial = some r.book := by
  have hmem : r ∈ b.registry.values := NameTable.mem_values_iff.2 ⟨name, h⟩
  unfold bookOf?
  cases hfind : b.registry.values.find? (·.serial == r.serial) with
  | none =>
      have hne := List.find?_eq_none.1 hfind r hmem
      exact absurd (beq_self_eq_true r.serial) hne
  | some r' =>
      obtain ⟨name', hr'⟩ := NameTable.mem_values_iff.1 (List.mem_of_find?_eq_some hfind)
      have hserial : r'.serial = r.serial := by simpa using List.find?_some hfind
      obtain rfl := hb.unique hr' h hserial
      obtain rfl := Option.some.inj (hr'.symm.trans h)
      rfl

theorem Settled.bookOf? {b : Board} {serial : Nat} {book : Book} (h : b.Settled serial book) :
    b.bookOf? serial = some book := by
  unfold Board.bookOf?
  cases hfind : b.registry.values.find? (·.serial == serial) with
  | none => exact h.kept
  | some r =>
      obtain ⟨name, hr⟩ := NameTable.mem_values_iff.1 (List.mem_of_find?_eq_some hfind)
      exact absurd (by simpa using List.find?_some hfind) (h.vacant hr)

/-! ### One name -/

theorem retired_archive_of_find? {b : Board} {name : String} {r : Registration}
    (h : b.find? name = some r) :
    (b.archive name).retired = (r.serial, r.book) :: b.retired := by
  rw [archive, h]

/-- Keeping another book does not hide the one of a settled number. -/
theorem Settled.lookup_archive {b : Board} {serial : Nat} {book : Book} (h : b.Settled serial book)
    (name : String) : (b.archive name).retired.lookup serial = some book := by
  unfold archive
  split
  next r hr =>
    have hne : serial ≠ r.serial := Ne.symm (h.vacant hr)
    rw [List.lookup_cons, beq_false_of_ne hne]
    exact h.kept
  next => exact h.kept

section Register

variable {b : Board} (now : Nat) (live : Bool) (l : Listing)

theorem Numbered.register (hb : b.Numbered) : (b.register now live l).Numbered where
  given := by
    intro name r h
    rw [find?_register] at h
    rw [nextSerial_register]
    split at h
    · cases h
      exact Nat.lt_succ_self b.nextSerial
    · exact Nat.lt_succ_of_lt (hb.given h)
  unique := by
    intro name name' r r' h h' hserial
    rw [find?_register] at h h'
    -- the new registration has a number that none of the others has
    split at h
    case isTrue hname =>
      split at h'
      case isTrue hname' => rw [hname, hname']
      case isFalse =>
        cases h
        exact absurd hserial (Nat.ne_of_gt (hb.given h'))
    case isFalse hname =>
      split at h'
      case isTrue =>
        cases h'
        exact absurd hserial (Nat.ne_of_lt (hb.given h))
      case isFalse => exact hb.unique h h' hserial

theorem Settled.register {serial : Nat} {book : Book} (h : b.Settled serial book) :
    (b.register now live l).Settled serial book where
  given := by
    rw [nextSerial_register]
    exact Nat.lt_succ_of_lt h.given
  vacant := by
    intro name r hr
    rw [find?_register] at hr
    split at hr
    · cases hr
      exact Nat.ne_of_gt h.given
    · exact h.vacant hr
  kept := h.lookup_archive l.instrument

/-- The book of a registration that is replaced comes to rest. -/
theorem settled_register (hb : b.Numbered) {r : Registration}
    (h : b.find? l.instrument = some r) :
    (b.register now live l).Settled r.serial r.book where
  given := by
    rw [nextSerial_register]
    exact Nat.lt_succ_of_lt (hb.given h)
  vacant := by
    intro name r' hr'
    rw [find?_register] at hr'
    split at hr'
    case isTrue =>
      cases hr'
      exact Nat.ne_of_gt (hb.given h)
    case isFalse hname => exact fun hserial => hname (hb.unique hr' h hserial)
  kept := by
    change (b.archive l.instrument).retired.lookup r.serial = _
    rw [retired_archive_of_find? h, List.lookup_cons_self]

end Register

section Retire

variable {b : Board} (gone : String)

theorem Numbered.retire (hb : b.Numbered) : (b.retire gone).Numbered where
  given := by
    intro name r h
    rw [find?_retire] at h
    rw [nextSerial_retire]
    split at h
    · cases h
    · exact hb.given h
  unique := by
    intro name name' r r' h h' hserial
    rw [find?_retire] at h h'
    split at h
    · cases h
    · split at h'
      · cases h'
      · exact hb.unique h h' hserial

theorem Settled.retire {serial : Nat} {book : Book} (h : b.Settled serial book) :
    (b.retire gone).Settled serial book where
  given := by
    rw [nextSerial_retire]
    exact h.given
  vacant := by
    intro name r hr
    rw [find?_retire] at hr
    split at hr
    · cases hr
    · exact h.vacant hr
  kept := h.lookup_archive gone

/-- The book of a registration that is removed comes to rest. -/
theorem settled_retire (hb : b.Numbered) {r : Registration} (h : b.find? gone = some r) :
    (b.retire gone).Settled r.serial r.book where
  given := by
    rw [nextSerial_retire]
    exact hb.given h
  vacant := by
    intro name r' hr'
    rw [find?_retire] at hr'
    split at hr'
    case isTrue => cases hr'
    case isFalse hname => exact fun hserial => hname (hb.unique hr' h hserial)
  kept := by
    change (b.archive gone).retired.lookup r.serial = _
    rw [retired_archive_of_find? h, List.lookup_cons_self]

end Retire

/-! ### A cycle -/

/-- What a cycle does to the books comes of registering and retiring one name after the other. -/
theorem converge_induction {P : Board → Prop} {b : Board} (now : Nat) (live : Bool)
    (seen : List String) (found : Catalog) (begin : P b)
    (register : ∀ c l, P c → P (c.register now live l)) (retire : ∀ c name, P c → P (c.retire name))
    (record : ∀ c events, P c → P (c.record events)) : P (b.converge now live seen found).2 := by
  have hregister : ∀ (ls : List Listing) (c : Board), P c → P (ls.foldl (·.register now live) c) :=
    fun ls c hc => List.foldlRecOn ls (·.register now live) hc fun c hc l _ => register c l hc
  have hretire : ∀ (names : List String) (c : Board), P c → P (names.foldl (·.retire) c) :=
    fun names c hc => List.foldlRecOn names (·.retire) hc fun c hc name _ => retire c name hc
  unfold converge
  dsimp only
  split
  · exact hretire _ _ (hregister _ b begin)
  · exact record _ _ (hretire _ _ (hregister _ b begin))

section Cycle

variable {b : Board} (now : Nat) (live : Bool) (seen : List String) (found : Catalog)

theorem Numbered.converge (hb : b.Numbered) : (b.converge now live seen found).2.Numbered :=
  converge_induction now live seen found hb (fun _ l hc => hc.register now live l)
    (fun _ name hc => hc.retire name) fun _ _ hc => ⟨hc.given, hc.unique⟩

theorem Settled.converge {serial : Nat} {book : Book} (h : b.Settled serial book) :
    (b.converge now live seen found).2.Settled serial book :=
  converge_induction (P := (·.Settled serial book)) now live seen found h
    (fun _ l hc => hc.register now live l) (fun _ name hc => hc.retire name)
    fun _ _ hc => ⟨hc.given, hc.vacant, hc.kept⟩

/-- A cycle leaves a registration as it was, or its book comes to rest. -/
theorem settled_converge (hb : b.Numbered) {name : String} {r : Registration}
    (h : b.find? name = some r) :
    (b.converge now live seen found).2.find? name = some r ∨
      (b.converge now live seen found).2.Settled r.serial r.book := by
  refine (converge_induction (P := fun c => c.Numbered ∧
    (c.find? name = some r ∨ c.Settled r.serial r.book)) now live seen found ⟨hb, .inl h⟩
    ?register ?retire ?record).2
  case register =>
    rintro c l ⟨hc, hr | hsettled⟩
    · refine ⟨hc.register now live l, ?_⟩
      by_cases hname : name = l.instrument
      · exact .inr (settled_register now live l hc (hname ▸ hr))
      · exact .inl (by rw [find?_register, if_neg hname, hr])
    · exact ⟨hc.register now live l, .inr (hsettled.register now live l)⟩
  case retire =>
    rintro c gone ⟨hc, hr | hsettled⟩
    · refine ⟨hc.retire gone, ?_⟩
      by_cases hname : name = gone
      · exact .inr (settled_retire gone hc (hname ▸ hr))
      · exact .inl (by rw [find?_retire, if_neg hname, hr])
    · exact ⟨hc.retire gone, .inr (hsettled.retire gone)⟩
  case record =>
    rintro c events ⟨hc, hr⟩
    exact ⟨⟨hc.given, hc.unique⟩, hr.imp id fun hc => ⟨hc.given, hc.vacant, hc.kept⟩⟩

end Cycle

/-! ### Steps and runs -/

theorem Numbered.take {b : Board} (hb : b.Numbered) (s : Step) : (b.take s).Numbered := by
  cases s with
  | converge now live seen found => exact hb.converge now live seen found
  | _ =>
      constructor
      case given => exact fun h => serial_lt_take (fun _ _ => hb.given) _ h
      case unique =>
        -- no registration comes or goes, and all keep their numbers
        intro name name' r r' h h' hserial
        rw [find?_take (fun _ _ _ _ => Step.noConfusion)] at h h'
        obtain ⟨r₀, hr₀, rfl⟩ := Option.map_eq_some_iff.1 h
        obtain ⟨r₁, hr₁, rfl⟩ := Option.map_eq_some_iff.1 h'
        rw [Registration.serial_take, Registration.serial_take] at hserial
        exact hb.unique hr₀ hr₁ hserial

/-- **A step leaves a settled book alone.** -/
theorem Settled.take {b : Board} {serial : Nat} {book : Book} (h : b.Settled serial book)
    (s : Step) : (b.take s).Settled serial book := by
  cases s with
  | converge now live seen found => exact h.converge now live seen found
  | _ =>
      constructor
      case given => exact Nat.lt_of_lt_of_le h.given (nextSerial_le_take b _)
      case vacant =>
        intro name r hr
        rw [find?_take (fun _ _ _ _ => Step.noConfusion)] at hr
        obtain ⟨r₀, hr₀, rfl⟩ := Option.map_eq_some_iff.1 hr
        rw [Registration.serial_take]
        exact h.vacant hr₀
      case kept =>
        rw [(sameFrame_take (fun _ _ _ _ => Step.noConfusion) b).retired]
        exact h.kept

/-- **A registration keeps its number, or its book comes to rest** as it was before the step. -/
theorem settled_take {b : Board} (hb : b.Numbered) (s : Step) {name : String} {r : Registration}
    (h : b.find? name = some r) :
    (∃ r', (b.take s).find? name = some r' ∧ r'.serial = r.serial) ∨
      (b.take s).Settled r.serial r.book := by
  cases s with
  | converge now live seen found =>
      exact (settled_converge now live seen found hb h).imp (fun h => ⟨r, h, rfl⟩) id
  | _ =>
      left
      rw [find?_take (fun _ _ _ _ => Step.noConfusion), h]
      exact ⟨_, rfl, Registration.serial_take b.config name r _⟩

theorem numbered_start (config : Config) : (start config).Numbered where
  given := fun h => nomatch h
  unique := fun h => nomatch h

theorem Numbered.takeAll {b : Board} (hb : b.Numbered) (steps : List Step) :
    (b.takeAll steps).Numbered := by
  induction steps generalizing b with
  | nil => exact hb
  | cons s steps ih => exact ih (hb.take s)

/-- **What is settled stays so.** -/
theorem Settled.takeAll {b : Board} {serial : Nat} {book : Book} (h : b.Settled serial book)
    (steps : List Step) : (b.takeAll steps).Settled serial book := by
  induction steps generalizing b with
  | nil => exact h
  | cons s steps ih => exact ih (h.take s)

end Board

end MarketDepth
